/-
  Xv6.Mem.Steps — every step of the machine keeps the pages apart.
-/
import Xv6.Mem.Ownership

namespace Xv6.Mem

open Lib Function State

variable {ld : Layout} {s s' : State} {own : Slot → Multiset Pa} {p np pp : Slot}

/-! ## §1. Records. -/

variable {r : Proc} {image : Image} {ticks : UInt32}

theorem RecordOk.live (h : RecordOk r) (hl : Live r.state ∨ r.state = .ZOMBIE) :
    ∃ tf image, r.trapframe = some tf ∧ imageOf r = some image ∧ image.Ok tf := by
  have hne : ¬ (r.state = .UNUSED ∨ r.state = .USED) := by
    rintro (he | he) <;> rw [he] at hl <;> revert hl <;> decide
  rw [RecordOk, if_neg hne] at h
  exact h

theorem imageOf_eq_some (h : imageOf r = some image) :
    r.pagetable = some image.pagetable ∧ r.sz = image.sz := by
  obtain ⟨pt, hpt, he⟩ := Option.map_eq_some_iff.mp h
  subst he
  exact ⟨hpt, rfl⟩

theorem recordPages_of_ne (h : r.state ≠ .UNUSED) :
    recordPages r = pagesOf r.trapframe r.pagetable + threadPages r.threads := if_neg h

theorem recordPages_unused (h : r.state = .UNUSED) : recordPages r = 0 := if_pos h

theorem RecordOk.of_empty (hst : r.state = .UNUSED ∨ r.state = .USED)
    (h : r.trapframe = none ∧ r.pagetable = none ∧ r.sz = 0) : RecordOk r := by
  rw [RecordOk, if_pos hst]
  exact h

theorem RecordOk.of_image {tf : Pa}
    (hst : Live r.state ∨ r.state = .ZOMBIE) (htf : r.trapframe = some tf)
    (himage : imageOf r = some image) (hok : image.Ok tf) : RecordOk r := by
  have hne : ¬ (r.state = .UNUSED ∨ r.state = .USED) := by
    rintro (he | he) <;> rw [he] at hst <;> revert hst <;> decide
  rw [RecordOk, if_neg hne]
  exact ⟨tf, image, htf, himage, hok⟩

theorem recordOk_freed (r : Proc) : RecordOk r.freed := .of_empty (.inl rfl) ⟨rfl, rfl, rfl⟩

section

variable (h : Owns s own)

include h

theorem Owns.own_inUser (hp : s.InUser p) :
    own p = pagesOf (s.proc p).trapframe (s.proc p).pagetable + threadPages (s.proc p).threads := by
  have hl : Live (s.proc p).state := Or.inr (.inr hp.1)
  have hb := h.not_busy_of_live hl fun w hw => by rw [hp.2] at hw; cases hw
  rw [(h.idle p hb).1, recordPages_of_ne (by rw [hp.1]; decide)]

theorem Owns.current_inUser (hp : s.InUser p) :
    CurrentInUse (s.proc p).threads (s.thread p) := h.current p hp.1 (by rw [hp.2]; rfl)

/-! ## §2. fork. -/

theorem Owns.fork {parent : Image} (hp : s.InUser p)
    (himage : imageOf (s.proc p) = some parent) (hnp : (s.proc np).state = .UNUSED) :
    Owns (startFork ld s p np parent) own := by
  have hfree := h.not_busy_of_unused hnp
  have hne : p ≠ np := by
    rintro rfl
    have := hp.1
    rw [hnp] at this
    cases this
  have hsz : parent.sz ≤ TRAPFRAME := by
    obtain ⟨tf, image, _, hi, hok⟩ := (h.record p).live (.inl (.inr (.inr hp.1)))
    rw [himage] at hi
    cases hi
    exact hok.sz
  have hproc : ∀ q, (startFork ld s p np parent).proc q =
      if q = np then (s.proc np).allocated s.nextpid else s.proc q := fun q => by
    simp [startFork]
  have hpath : ∀ q, (startFork ld s p np parent).path q =
      if q = p then .work (.child np (forkCore ld.trampoline parent)) else s.path q := fun q => by
    simp [startFork]
  rw [← update_eq_self np own]
  refine h.replace p np (own np) (h.nodup_le le_rfl) ?_ ?_ ?_ ?_ ?_ ?_ ?_ ?_
  · intro q hq
    rw [hproc q, if_neg hq]
    exact .refl _
  · intro p' hp'
    rw [hpath p', if_neg hp']
  · exact fun p' w _ hw ht => hfree ⟨p', w, hw, ht⟩
  · intro w hw
    rw [hp.2] at hw
    cases hw
  · intro w hw
    rw [hpath p, if_pos rfl] at hw
    cases hw
    rw [hproc np, if_pos rfl, h.own_unused hnp]
    refine ⟨rfl, rfl, ?_, forkCore_spec ld.trampoline parent 0 hsz⟩
    show threadPages (fun _ => Thread.zero) = 0
    decide
  · intro hno
    exact absurd (by rw [hpath p, if_pos rfl]) (hno _)
  · -- the record of an unused slot has no memory, and allocproc adds none
    have hr := h.record np
    rw [RecordOk, if_pos (.inl hnp)] at hr
    rw [hproc np, if_pos rfl]
    exact .of_empty (.inr rfl) hr
  · intro p'
    by_cases hnp' : p' = np
    · refine current_of_not_running ?_
      rw [hproc p', if_pos hnp']
      exact nofun
    · by_cases hp' : p' = p
      · subst hp'
        intro hrun _
        rw [hproc p', if_neg hnp']
        exact h.current_inUser hp
      · refine (h.current p').congr ?_ ?_ ?_ rfl
        · rw [hproc p', if_neg hnp']
        · rw [hproc p', if_neg hnp']
        · rw [hpath p', if_neg hp']

theorem Owns.forkDone {r : Option (Pa × Image)}
    (hrun : (s.proc p).state = .RUNNING) (hw : s.path p = .work (.child np (.ret r))) :
    Owns ((s.setProc np (forked (s.proc np) p r)).setPath p .user) own := by
  obtain ⟨hused, hthreads, hpost⟩ := h.busy p _ hw
  change (s.proc np).state = .USED at hused
  change threadPages (s.proc np).threads = 0 at hthreads
  change NewProcess 0 r (own np) at hpost
  have hnotrun : (forked (s.proc np) p r).state ≠ .RUNNING := by
    cases r <;> exact nofun
  rw [← update_eq_self np own]
  refine h.replace p np (own np) (h.nodup_le le_rfl) ?_ ?_ ?_ ?_ ?_ ?_ ?_ ?_
  · intro q hq
    rw [setPath_proc, setProc_proc, if_neg hq]
    exact .refl _
  · intro p' hp'
    simp [hp']
  · exact fun p' w hp' hw' ht => hp' (h.exclusive p' p w _ hw' hw ht)
  · intro w hw'
    rw [hw] at hw'
    cases hw'
    rfl
  · intro w hw'
    simp at hw'
  · intro _
    rw [setPath_proc, setProc_proc, if_pos rfl]
    match r, hpost with
    | none, hpost => exact ⟨hpost.trans (recordPages_unused rfl).symm, nofun⟩
    | some (tf, image), hpost =>
      refine ⟨?_, nofun⟩
      rw [recordPages_of_ne (r := forked (s.proc np) p (some (tf, image))) nofun, hpost.1]
      show _ = pagesOf (some tf) (some image.pagetable) + threadPages (s.proc np).threads
      rw [hthreads]
  · rw [setPath_proc, setProc_proc, if_pos rfl]
    match r, hpost with
    | none, _ => exact recordOk_freed _
    | some (tf, image), hpost =>
      exact .of_image (.inl (.inr (.inl rfl))) rfl rfl hpost.2
  · intro p'
    by_cases hnp' : p' = np
    · refine current_of_not_running ?_
      rw [setPath_proc, setProc_proc, if_pos hnp']
      exact hnotrun
    · by_cases hp' : p' = p
      · subst hp'
        intro _ _
        simp only [setPath_proc, setProc_proc, if_neg hnp', setPath_thread,
          setProc_thread]
        exact h.current p' hrun (by rw [hw]; rfl)
      · refine (h.current p').congr ?_ ?_ ?_ rfl <;> simp [hnp', hp']

/-! ## §3. create_thread, thread_cleanup, join_thread. -/

theorem Owns.createThread (hp : s.InUser p) : Owns (s.setPath p (.work (.threads
      (createThread (s.proc p).threads (s.proc p).trapframe (s.thread p))))) own := by
  refine h.start hp rfl ⟨.inr (.inr hp.1), threadPages (s.proc p).threads, ?_, ?_⟩
  · rw [h.own_inUser hp, add_comm]
  · exact createThread_spec _ _ _ (h.current_inUser hp)

theorem Owns.threadCleanup (hp : s.InUser p) {tid : UInt32}
    (hmain : SparesMain (s.proc p).threads tid) :
    Owns (s.setPath p (.work (.threads
      (threadCleanup (s.proc p).threads (s.thread p) tid)))) own := by
  refine h.start hp rfl ⟨.inr (.inr hp.1), threadPages (s.proc p).threads, ?_, ?_⟩
  · rw [h.own_inUser hp, add_comm]
  · exact threadCleanup_spec _ _ _ (h.current_inUser hp) hmain

theorem Owns.threadsDone {r : ThreadsResult}
    (hrun : (s.proc p).state = .RUNNING) (hw : s.path p = .work (.threads (.ret r))) :
    Owns (((s.setProc p { s.proc p with threads := r.threads }).setThread p r.thread).setPath p
      (After.path r.after)) own := by
  obtain ⟨hl, mem, hown, hmem, hcur⟩ := h.busy p _ hw
  change own p = mem + pagesOf (s.proc p).trapframe (s.proc p).pagetable at hown
  have hnowork : ∀ w, After.path r.after ≠ .work w := by
    intro w hw'
    cases ha : r.after <;> rw [ha] at hw' <;> cases hw'
  rw [← update_eq_self p own]
  refine h.replace p p (own p) (h.nodup_le le_rfl) ?_ ?_ ?_ ?_ ?_ ?_ ?_ ?_
  · intro q hq
    simp only [setPath_proc, setThread_proc, setProc_proc, if_neg hq]
    exact .refl _
  · intro p' hp'
    simp [hp']
  · exact fun p' w hp' hw' ht => hp' (h.exclusive p' p w _ hw' hw ht)
  · intro w hw'
    rw [hw] at hw'
    cases hw'
    rfl
  · intro w hw'
    rw [setPath_path, if_pos rfl] at hw'
    exact absurd hw' (hnowork w)
  · intro _
    simp only [setPath_proc, setThread_proc, setProc_proc, if_pos]
    refine ⟨?_, by rw [hrun]; decide⟩
    rw [recordPages_of_ne (by rw [hrun]; decide), hown, hmem, add_comm]
  · simp only [setPath_proc, setThread_proc, setProc_proc, if_pos]
    exact (h.record p)
  · intro p'
    by_cases hp' : p' = p
    · subst hp'
      intro _ hret
      simp only [setPath_path, if_pos] at hret
      simp only [setPath_proc, setThread_proc, setProc_proc, if_pos,
        setPath_thread, setThread_thread]
      cases ha : r.after with
      | returns v => exact hcur v ha
      | yields | exits => rw [ha] at hret; cases hret
    · refine (h.current p').congr ?_ ?_ ?_ ?_ <;> simp [hp']

section

variable (hp : s.InUser p)

include hp

theorem Owns.joinThread {tid : UInt32} {r : ThreadsResult}
    (hr : joinThread (s.proc p).threads (s.thread p) tid = some r) :
    Owns ((s.setProc p { s.proc p with threads := r.threads }).setPath p
      (After.path r.after)) own := by
  obtain ⟨hpages, hret⟩ := threadPages_joinThread (h.current_inUser hp) hr
  have hnowork : ∀ w, After.path r.after ≠ .work w := by
    intro w hw'
    cases ha : r.after <;> rw [ha] at hw' <;> cases hw'
  refine h.same rfl ?_ ?_ ?_
  · intro q
    by_cases hq : q = p
    · subst hq
      rw [setPath_proc, setProc_proc, if_pos rfl]
      exact ⟨.inl rfl, rfl, rfl, rfl, hpages⟩
    · rw [setPath_proc, setProc_proc, if_neg hq]
      exact .refl _
  · intro p' w
    by_cases hp' : p' = p
    · subst hp'
      rw [setPath_path, if_pos rfl, hp.2]
      exact iff_of_false (hnowork w) nofun
    · rw [setPath_path, if_neg hp', setProc_path]
  · intro p'
    by_cases hp' : p' = p
    · subst hp'
      intro _ hreturning
      simp only [setPath_path, if_pos] at hreturning
      simp only [setPath_proc, setProc_proc, if_pos, setPath_thread,
        setProc_thread]
      cases ha : r.after with
      | returns v =>
        rw [hret ⟨v, ha⟩]
        exact h.current_inUser hp
      | yields | exits => rw [ha] at hreturning; cases hreturning
    · refine (h.current p').congr ?_ ?_ ?_ rfl <;> simp [hp']

/-! ## §4. growproc and exec. -/

theorem Owns.own_image (himage : imageOf (s.proc p) = some image) :
    own p = ownedPages image.pagetable +
      ((s.proc p).trapframe.elim 0 (fun tf => {tf}) + threadPages (s.proc p).threads) := by
  rw [h.own_inUser hp, pagesOf, (imageOf_eq_some himage).1, Option.elim_some]
  abel

theorem Owns.image_ok (himage : imageOf (s.proc p) = some image) :
    ∃ tf, (s.proc p).trapframe = some tf ∧ image.Ok tf := by
  obtain ⟨tf, image', htf, hi, hok⟩ := (h.record p).live (.inl (.inr (.inr hp.1)))
  rw [himage] at hi
  cases hi
  exact ⟨tf, htf, hok⟩

theorem Owns.growproc {n : Int} (himage : imageOf (s.proc p) = some image) :
    Owns (s.setPath p (.work (growWork image n))) own := by
  obtain ⟨tf, htf, hok⟩ := h.image_ok hp himage
  refine h.start hp rfl ⟨.inr (.inr hp.1), ownedPages image.pagetable, h.own_image hp himage, ?_⟩
  have hspec := growproc_spec image tf n 0 hok
  rw [add_zero] at hspec
  rw [Prog.wp_bind]
  refine Prog.wp_mono hspec fun r o hr => ⟨?_, tf, htf, hr.2⟩
  rw [hr.1, add_zero]

theorem Owns.exec {tf : Pa} {file : Option (List UInt8)} {argv : List (List UInt8)}
    (himage : imageOf (s.proc p) = some image) (htf : (s.proc p).trapframe = some tf) :
    Owns (s.setPath p (.work (execWork ld tf image file argv))) own := by
  obtain ⟨tf', _, hok⟩ := h.image_ok hp himage
  refine h.start hp rfl ⟨.inr (.inr hp.1), ownedPages image.pagetable, h.own_image hp himage, ?_⟩
  have hspec := exec_spec ld.trampoline tf image file argv 0 hok.sz
  rw [add_zero] at hspec
  rw [Prog.wp_bind]
  refine Prog.wp_mono hspec fun r o hr => ?_
  cases r with
  | none =>
    show o = (s.proc p).pagetable.elim 0 ownedPages
    rw [hr, add_zero, (imageOf_eq_some himage).1, Option.elim_some]
  | some e =>
    refine ⟨?_, tf, htf, hr.2⟩
    rw [hr.1, add_zero]

end

theorem Owns.imageDone {r : Option Image} (hrun : (s.proc p).state = .RUNNING)
    (hw : s.path p = .work (.image (.ret r))) :
    Owns ((s.setProc p (withImage (s.proc p) r)).setPath p .user) own := by
  obtain ⟨hl, mem, hown, hpost⟩ := h.busy p _ hw
  change own p = mem + ((s.proc p).trapframe.elim 0 (fun tf => {tf}) +
    threadPages (s.proc p).threads) at hown
  change ImagePost (s.proc p) r mem at hpost
  have hstate : (withImage (s.proc p) r).state = .RUNNING := by
    cases r <;> exact hrun
  have hthreads : (withImage (s.proc p) r).threads = (s.proc p).threads := by
    cases r <;> rfl
  rw [← update_eq_self p own]
  refine h.replace p p (own p) (h.nodup_le le_rfl) ?_ ?_ ?_ ?_ ?_ ?_ ?_ ?_
  · intro q hq
    rw [setPath_proc, setProc_proc, if_neg hq]
    exact .refl _
  · intro p' hp'
    simp [hp']
  · exact fun p' w hp' hw' ht => hp' (h.exclusive p' p w _ hw' hw ht)
  · intro w hw'
    rw [hw] at hw'
    cases hw'
    rfl
  · intro w hw'
    simp at hw'
  · intro _
    rw [setPath_proc, setProc_proc, if_pos rfl]
    refine ⟨?_, by rw [hstate]; decide⟩
    rw [recordPages_of_ne (by rw [hstate]; decide), hown, hthreads]
    cases r with
    | none =>
      show _ = pagesOf (s.proc p).trapframe (s.proc p).pagetable + _
      rw [show mem = _ from hpost, pagesOf]
      abel
    | some image =>
      show _ = pagesOf (s.proc p).trapframe (some image.pagetable) + _
      rw [hpost.1, pagesOf, Option.elim_some]
      abel
  · rw [setPath_proc, setProc_proc, if_pos rfl]
    cases r with
    | none => exact h.record p
    | some image =>
      obtain ⟨tf, htf, hok⟩ := hpost.2
      exact .of_image (.inl (.inr (.inr hrun))) htf rfl hok
  · intro p'
    by_cases hp' : p' = p
    · subst hp'
      intro _ _
      simp only [setPath_proc, setProc_proc, if_pos, setPath_thread,
        setProc_thread, hthreads]
      exact h.current p' hrun (by rw [hw]; rfl)
    · refine (h.current p').congr ?_ ?_ ?_ rfl <;> simp [hp']

/-! ## §5. exit and wait. -/

theorem Owns.callExit (hp : s.InUser p) {status : Int} : Owns (s.setPath p (.exit status)) own := by
  refine h.same rfl (fun q => .refl _) ?_ ?_
  · intro p' w
    by_cases hp' : p' = p
    · subst hp'
      rw [setPath_path, if_pos rfl, hp.2]
      exact iff_of_false nofun nofun
    · rw [setPath_path, if_neg hp']
  · refine current_setPath h fun _ hret => ?_
    rw [setPath_path, if_pos rfl] at hret
    cases hret

end

theorem reparented_sameMem (s : State) (p q : Slot) : SameMem (s.proc q) (reparented s p q) := by
  unfold reparented
  split
  · exact ⟨.inl rfl, rfl, rfl, rfl, rfl⟩
  · exact .refl _

section

variable (h : Owns s own)

include h

theorem Owns.exit {status : Int}
    (hrun : (s.proc p).state = .RUNNING) (hpath : s.path p = .exit status) :
    Owns (exited s p status ticks) own := by
  have hb : ¬ s.Busy p :=
    h.not_busy_of_live (.inr (.inr hrun)) fun w hw => by rw [hpath] at hw; cases hw
  have hown := (h.idle p hb).1
  rw [recordPages_of_ne (by rw [hrun]; decide)] at hown
  have hsame := reparented_sameMem s p p
  have hproc : ∀ q, (exited s p status ticks).proc q = if q = p then
      switchedOut { reparented s p p with xstate := status } (s.thread p) .ZOMBIE ticks
      else reparented s p q := fun q => by
    simp [exited]
  have hpath' : ∀ q, (exited s p status ticks).path q = if q = p then .user else s.path q :=
    fun q => by simp [exited]
  rw [← update_eq_self p own]
  refine h.replace p p (own p) (h.nodup_le le_rfl) ?_ ?_ ?_ ?_ ?_ ?_ ?_ ?_
  · intro q hq
    rw [hproc q, if_neg hq]
    exact reparented_sameMem s p q
  · intro p' hp'
    rw [hpath' p', if_neg hp']
  · exact fun p' w _ hw ht => hb ⟨p', w, hw, ht⟩
  · intro w hw
    rw [hpath] at hw
    cases hw
  · intro w hw
    rw [hpath' p, if_pos rfl] at hw
    cases hw
  · intro _
    rw [hproc p, if_pos rfl]
    refine ⟨?_, nofun⟩
    rw [hown, recordPages_of_ne
      (r := switchedOut { reparented s p p with xstate := status } (s.thread p) .ZOMBIE ticks)
      nofun]
    show _ = pagesOf (reparented s p p).trapframe (reparented s p p).pagetable +
      threadPages (parked (reparented s p p).threads (s.thread p))
    rw [threadPages_parked, hsame.trapframe, hsame.pagetable, hsame.threads]
  · rw [hproc p, if_pos rfl]
    obtain ⟨tf, image, htf, hi, hok⟩ := (h.record p).live (.inl (.inr (.inr hrun)))
    refine .of_image (.inr rfl) (hsame.trapframe.trans htf) ?_ hok
    exact hsame.imageOf.trans hi
  · intro p'
    by_cases hp' : p' = p
    · refine current_of_not_running ?_
      rw [hproc p', if_pos hp']
      exact nofun
    · have hst : (reparented s p p').state = (s.proc p').state ∧
          (reparented s p p').threads = (s.proc p').threads := by
        unfold reparented
        split <;> exact ⟨rfl, rfl⟩
      refine (h.current p').congr ?_ ?_ ?_ ?_
      · rw [hproc p', if_neg hp']
        exact hst.1
      · rw [hproc p', if_neg hp']
        exact hst.2
      · rw [hpath' p', if_neg hp']
      · simp [exited, hp']

theorem Owns.wait (hp : s.InUser p) (hzombie : (s.proc pp).state = .ZOMBIE) (hfree : ¬ s.Busy pp) :
    Owns (s.setPath p (.work (.reap pp
      (freeproc (s.proc pp).trapframe (s.proc pp).pagetable (s.proc pp).sz)))) own := by
  obtain ⟨tf, image, htf, hi, hok⟩ := (h.record pp).live (.inr hzombie)
  have hsz : (s.proc pp).sz ≤ TRAPFRAME := by
    rw [(imageOf_eq_some hi).2]
    exact hok.sz
  rw [← update_eq_self pp own]
  refine h.replace p pp (own pp) (h.nodup_le le_rfl) (fun q _ => .refl _)
    (fun p' hp' => by simp [hp']) (fun p' w _ hw ht => hfree ⟨p', w, hw, ht⟩)
    (fun w hw => by rw [hp.2] at hw; cases hw) ?_ ?_ (h.record pp) ?_
  · intro w hw
    rw [setPath_path, if_pos rfl] at hw
    cases hw
    refine ⟨rfl, hzombie, ?_⟩
    rw [(h.idle pp hfree).1, recordPages_of_ne (by rw [hzombie]; decide)]
    exact freeproc_spec _ _ _ _ hsz
  · intro hno
    exact absurd ((setPath_path ..).trans (if_pos rfl)) (hno _)
  · exact current_setPath h fun hrun _ => h.current p hrun (by rw [hp.2]; rfl)

/-- The reaped slot keeps nothing; pages of threads that were never cleaned up
have no owner any more. -/
theorem Owns.waitDone (hrun : (s.proc p).state = .RUNNING)
    (hw : s.path p = .work (.reap pp (.ret ()))) :
    Owns (reapDone s p pp) (update own pp 0) ∧ own pp = threadPages (s.proc pp).threads := by
  obtain ⟨hzombie, hpost⟩ := h.busy p _ hw
  refine ⟨?_, hpost⟩
  change (s.proc pp).state = .ZOMBIE at hzombie
  have hproc : ∀ q, (reapDone s p pp).proc q =
      if q = pp then (s.proc pp).freed else s.proc q := fun q => by simp [reapDone]
  have hpath : ∀ q, (reapDone s p pp).path q = if q = p then .user else s.path q :=
    fun q => by simp [reapDone]
  refine h.replace p pp 0 (h.nodup_le (Multiset.zero_le (own pp))) ?_ ?_ ?_ ?_ ?_ ?_ ?_ ?_
  · intro q hq
    rw [hproc q, if_neg hq]
    exact .refl _
  · intro p' hp'
    rw [hpath p', if_neg hp']
  · exact fun p' w hp' hw' ht => hp' (h.exclusive p' p w _ hw' hw ht)
  · intro w hw'
    rw [hw] at hw'
    cases hw'
    rfl
  · intro w hw'
    rw [hpath p, if_pos rfl] at hw'
    cases hw'
  · intro _
    rw [hproc pp, if_pos rfl]
    exact ⟨(recordPages_unused rfl).symm, nofun⟩
  · rw [hproc pp, if_pos rfl]
    exact recordOk_freed _
  · intro p'
    by_cases hpp : p' = pp
    · refine current_of_not_running ?_
      rw [hproc p', if_pos hpp]
      exact nofun
    · by_cases hp' : p' = p
      · subst hp'
        intro _ _
        rw [hproc p', if_neg hpp]
        exact h.current p' hrun (by rw [hw]; rfl)
      · refine (h.current p').congr ?_ ?_ ?_ rfl
        · rw [hproc p', if_neg hpp]
        · rw [hproc p', if_neg hpp]
        · rw [hpath p', if_neg hp']

/-! ## §6. Scheduling. -/

theorem Owns.dispatch {c : Sched.Choice}
    (hp : (s.proc p).state = .RUNNABLE) (hc : Sched.pickThread (s.proc p) = some c) :
    Owns ((s.setProc p (dispatched (s.proc p) ticks c).1).setThread p
      (dispatched (s.proc p) ticks c).2) own := by
  obtain ⟨hpages, hcur⟩ := threadPages_dispatched ticks hc
  refine h.same rfl ?_ (fun _ _ => Iff.rfl) ?_
  · intro q
    by_cases hq : q = p
    · subst hq
      rw [setThread_proc, setProc_proc, if_pos rfl]
      refine ⟨.inr ⟨.inr (.inl hp), ?_⟩, ?_, ?_, ?_, hpages⟩
      · cases c <;> exact .inr (.inr rfl)
      all_goals cases c <;> rfl
    · rw [setThread_proc, setProc_proc, if_neg hq]
      exact .refl _
  · intro p'
    by_cases hp' : p' = p
    · subst hp'
      intro _ _
      simp only [setThread_proc, setProc_proc, if_pos, setThread_thread]
      exact hcur
    · refine (h.current p').congr ?_ ?_ rfl ?_ <;> simp [hp']

theorem Owns.leave {state : ProcState}
    (hrun : (s.proc p).state = .RUNNING) (hstate : state = .RUNNABLE ∨ state = .SLEEPING) :
    Owns (((s.setProc p (switchedOut (s.proc p) (s.thread p) state ticks)).setPath p
      (s.path p).resumed).setThread p none) own := by
  have hlive : Live state := hstate.elim (fun e => .inr (.inl e)) Or.inl
  refine h.same rfl ?_ ?_ ?_
  · intro q
    by_cases hq : q = p
    · subst hq
      simp only [setThread_proc, setPath_proc, setProc_proc, if_pos]
      exact ⟨.inr ⟨.inr (.inr hrun), hlive⟩, rfl, rfl, rfl, threadPages_parked _ _⟩
    · simp only [setThread_proc, setPath_proc, setProc_proc, if_neg hq]
      exact .refl _
  · intro p' w
    by_cases hp' : p' = p
    · subst hp'
      rw [setThread_path, setPath_path, if_pos rfl]
      cases s.path p' with
      | yield => exact iff_of_false nofun nofun
      | user | work w | exit status => exact Iff.rfl
    · rw [setThread_path, setPath_path, if_neg hp', setProc_path]
  · intro p'
    by_cases hp' : p' = p
    · subst hp'
      refine current_of_not_running ?_
      simp only [setThread_proc, setPath_proc, setProc_proc, if_pos]
      rcases hstate with rfl | rfl <;> exact nofun
    · refine (h.current p').congr ?_ ?_ ?_ ?_ <;> simp [hp']

theorem Owns.wakeup (hp : (s.proc p).state = .SLEEPING) :
    Owns (s.setProc p { s.proc p with state := .RUNNABLE }) own := by
  refine h.same rfl ?_ (fun _ _ => Iff.rfl) ?_
  · intro q
    by_cases hq : q = p
    · subst hq
      rw [setProc_proc, if_pos rfl]
      exact ⟨.inr ⟨.inl hp, .inr (.inl rfl)⟩, rfl, rfl, rfl, rfl⟩
    · rw [setProc_proc, if_neg hq]
      exact .refl _
  · intro p'
    by_cases hp' : p' = p
    · subst hp'
      refine current_of_not_running ?_
      rw [setProc_proc, if_pos rfl]
      exact nofun
    · refine (h.current p').congr ?_ ?_ rfl rfl <;> simp [hp']

end

/-! ## §7. All steps. -/

/-- thread_cleanup is never called for the main thread. -/
def Spares (s : State) : Act → Prop
  | .threadCleanup p tid => SparesMain (s.proc p).threads tid
  | _ => True

inductive Shift (s s' : State) (own own' : Slot → Multiset Pa) : Prop
  | still (hheap : s'.heap = s.heap) (hown : own' = own)
  | moves (q : Slot) (o : Multiset Pa) (hown : own' = update own q o)
    (hm : Moves (s.born q) s.heap s'.heap (own q) o) (hborn : s'.born = s.born)
  | reaps (pp : Slot) (hheap : s'.heap = s.heap) (hown : own' = update own pp 0)
    (hzombie : (s.proc pp).state = .ZOMBIE)
    (hleft : own pp = threadPages (s.proc pp).threads)

/-- **Every step keeps the pages apart.** -/
theorem step_owns {a : Act} (h : Owns s own) (hs : Step ld a s s') (hok : Spares s a) :
    ∃ own', Owns s' own' ∧ Shift s s' own own' := by
  cases hs with
  | fork hp himage hnp => exact ⟨own, h.fork hp himage hnp, .still rfl rfl⟩
  | forkDone hrun hw => exact ⟨own, h.forkDone hrun hw, .still rfl rfl⟩
  | createThread hp => exact ⟨own, h.createThread hp, .still rfl rfl⟩
  | threadCleanup hp => exact ⟨own, h.threadCleanup hp hok, .still rfl rfl⟩
  | threadsDone hrun hw => exact ⟨own, h.threadsDone hrun hw, .still rfl rfl⟩
  | joinThread hp hr => exact ⟨own, h.joinThread hp hr, .still rfl rfl⟩
  | growproc hp himage => exact ⟨own, h.growproc hp himage, .still rfl rfl⟩
  | exec hp himage htf => exact ⟨own, h.exec hp himage htf, .still rfl rfl⟩
  | imageDone hrun hw => exact ⟨own, h.imageDone hrun hw, .still rfl rfl⟩
  | callExit hp => exact ⟨own, h.callExit hp, .still rfl rfl⟩
  | exit hrun hpath hinit => exact ⟨own, h.exit hrun hpath, .still rfl rfl⟩
  | wait hp hchild hzombie hfree => exact ⟨own, h.wait hp hzombie hfree, .still rfl rfl⟩
  | waitDone hrun hw =>
    obtain ⟨h', hleft⟩ := h.waitDone hrun hw
    exact ⟨_, h', .reaps _ rfl rfl (h.busy _ _ hw).1 hleft⟩
  | effect hrun hw hstep =>
    obtain ⟨o, h', hm⟩ := h.effect hw hstep
    exact ⟨_, h', .moves _ o rfl hm rfl⟩
  | dispatch hp hc => exact ⟨own, h.dispatch hp hc, .still rfl rfl⟩
  | leave hrun hpath hstate =>
    exact ⟨own, h.leave hrun (hstate.imp_right And.left), .still rfl rfl⟩
  | wakeup hp => exact ⟨own, h.wakeup hp, .still rfl rfl⟩

end Xv6.Mem
