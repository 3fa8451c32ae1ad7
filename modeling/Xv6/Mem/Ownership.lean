/-
  Xv6.Mem.Ownership — every allocated page has one owner.

  `Owns s own` says which pages each slot owns: those its record leads to, or, while
  a path works on the slot, those that the program of the path accounts for.
-/
import Xv6.Mem.Machine
import Xv6.Proc.ThreadPages

namespace Xv6.Mem

open Lib Function Finset

/-! ## §1. What a slot owns. -/

/-- SLEEPING, RUNNABLE or RUNNING. -/
def Live (state : ProcState) : Prop :=
  state = .SLEEPING ∨ state = .RUNNABLE ∨ state = .RUNNING

instance (state : ProcState) : Decidable (Live state) := inferInstanceAs (Decidable (_ ∨ _))

def recordPages (r : Proc) : Multiset Pa :=
  if r.state = .UNUSED then 0 else pagesOf r.trapframe r.pagetable + threadPages r.threads

/-- A process has a trapframe that its page table maps; a slot without a
process has nothing. -/
def RecordOk (r : Proc) : Prop :=
  if r.state = .UNUSED ∨ r.state = .USED then r.trapframe = none ∧ r.pagetable = none ∧ r.sz = 0
  else ∃ tf image, r.trapframe = some tf ∧ imageOf r = some image ∧ image.Ok tf

/-- `growproc` or `exec` on the record `r` may end like this. -/
def ImagePost (r : Proc) (result : Option Image) (own : Multiset Pa) : Prop :=
  match result with
  | none => own = r.pagetable.elim 0 ownedPages
  | some image => own = ownedPages image.pagetable ∧ ∃ tf, r.trapframe = some tf ∧ image.Ok tf

def WorkOk (r : Proc) (own : Multiset Pa) : Work → Prop
  | .image prog => Live r.state ∧ ∃ mem,
    own = mem + (r.trapframe.elim 0 (fun tf => {tf}) + threadPages r.threads) ∧
      prog.wp (ImagePost r) mem
  | .threads prog => Live r.state ∧ ∃ mem,
    own = mem + pagesOf r.trapframe r.pagetable ∧ prog.wp ThreadsPost mem
  | .child _ prog => r.state = .USED ∧ threadPages r.threads = 0 ∧ prog.wp (NewProcess 0) own
  | .reap _ prog => r.state = .ZOMBIE ∧ prog.wp (fun _ own => own = threadPages r.threads) own

/-- The path may return to the thread that runs. -/
def Path.returning : Path → Bool
  | .user | .work _ => true
  | .yield | .exit _ => false

/-- The thread that runs is an entry in use. -/
def Current (s : State) (p : Slot) : Prop :=
  (s.proc p).state = .RUNNING → (s.path p).returning = true →
    CurrentInUse (s.proc p).threads (s.thread p)

structure Owns (s : State) (own : Slot → Multiset Pa) : Prop where
  nodup : ((s.heap.free : Multiset Pa) + ∑ q, own q).Nodup
  record : ∀ q, RecordOk (s.proc q)
  idle : ∀ q, ¬ s.Busy q → own q = recordPages (s.proc q) ∧ (s.proc q).state ≠ .USED
  busy : ∀ p w, s.path p = .work w → WorkOk (s.proc (w.target p)) (own (w.target p)) w
  exclusive : ∀ p p' w w', s.path p = .work w → s.path p' = .work w' →
    w.target p = w'.target p' → p = p'
  current : ∀ p, Current s p

/-! ## §2. Records that differ in nothing that matters here. -/

structure SameMem (r r' : Proc) : Prop where
  state : r'.state = r.state ∨ Live r.state ∧ Live r'.state
  trapframe : r'.trapframe = r.trapframe
  pagetable : r'.pagetable = r.pagetable
  sz : r'.sz = r.sz
  threads : threadPages r'.threads = threadPages r.threads

theorem SameMem.refl (r : Proc) : SameMem r r := ⟨.inl rfl, rfl, rfl, rfl, rfl⟩

section SameMem

variable {r r' : Proc} {own : Multiset Pa}

section

variable (h : SameMem r r')

include h

theorem SameMem.live_iff : Live r'.state ↔ Live r.state := by
  rcases h.state with he | ⟨h1, h2⟩
  · rw [he]
  · exact iff_of_true h2 h1

theorem SameMem.state_iff (st : ProcState) (hst : ¬ Live st) : r'.state = st ↔ r.state = st := by
  rcases h.state with he | ⟨h1, h2⟩
  · rw [he]
  · exact iff_of_false (fun e => hst (e ▸ h2)) fun e => hst (e ▸ h1)

theorem SameMem.recordPages : recordPages r' = Mem.recordPages r := by
  unfold Mem.recordPages
  rw [h.trapframe, h.pagetable, h.threads]
  simp only [h.state_iff .UNUSED (by decide)]

theorem SameMem.imageOf : imageOf r' = Mem.imageOf r := by
  unfold Mem.imageOf
  rw [h.pagetable, h.sz]

theorem SameMem.recordOk (hr : RecordOk r) : RecordOk r' := by
  unfold RecordOk at *
  simp only [h.state_iff .UNUSED (by decide), h.state_iff .USED (by decide),
    h.trapframe, h.pagetable, h.sz, h.imageOf]
  exact hr

theorem SameMem.workOk {w : Work} (hw : WorkOk r own w) : WorkOk r' own w := by
  cases w with
  | image prog =>
    obtain ⟨hl, mem, hown, hwp⟩ := hw
    refine ⟨h.live_iff.mpr hl, mem, ?_, ?_⟩
    · rw [h.trapframe, h.threads]
      exact hown
    · refine Prog.wp_mono hwp fun result own hpost => ?_
      unfold ImagePost
      rw [h.trapframe, h.pagetable]
      exact hpost
  | threads prog =>
    obtain ⟨hl, mem, hown, hwp⟩ := hw
    refine ⟨h.live_iff.mpr hl, mem, ?_, hwp⟩
    rw [h.trapframe, h.pagetable]
    exact hown
  | child np prog =>
    obtain ⟨hst, hth, hwp⟩ := hw
    refine ⟨(h.state_iff _ (by decide)).mpr hst, ?_, hwp⟩
    rw [h.threads]
    exact hth
  | reap pp prog =>
    obtain ⟨hst, hwp⟩ := hw
    refine ⟨(h.state_iff _ (by decide)).mpr hst, ?_⟩
    rw [h.threads]
    exact hwp

end

end SameMem

/-! ## §3. Who is busy. -/

section Owns

variable {s s' : State} {own : Slot → Multiset Pa}

variable {o : Multiset Pa} {q : Slot}

theorem WorkOk.state {r : Proc} {w : Work} (h : WorkOk r o w) :
    Live r.state ∨ r.state = .USED ∨ r.state = .ZOMBIE := by
  cases w with
  | image prog | threads prog => exact .inl h.1
  | child np prog => exact .inr (.inl h.1)
  | reap pp prog => exact .inr (.inr h.1)

section

variable (h : Owns s own)

include h

theorem Owns.not_busy_of_unused (hq : (s.proc q).state = .UNUSED) : ¬ s.Busy q := by
  rintro ⟨p, w, hw, rfl⟩
  rcases (h.busy p w hw).state with hl | hl | hl <;> rw [hq] at hl <;> revert hl <;> decide

theorem Owns.not_busy_of_live {p : Slot} (hl : Live (s.proc p).state)
    (hpath : ∀ w, s.path p ≠ .work w) : ¬ s.Busy p := by
  rintro ⟨p', w, hw, htarget⟩
  have hok := h.busy p' w hw
  cases w with
  | image prog | threads prog =>
    have hp' : p' = p := htarget
    exact hpath _ (hp' ▸ hw)
  | child np prog =>
    rw [htarget] at hok
    have hused := hok.1
    rw [hused] at hl
    revert hl
    decide
  | reap pp prog =>
    rw [htarget] at hok
    have hz := hok.1
    rw [hz] at hl
    revert hl
    decide

theorem Owns.own_unused (hq : (s.proc q).state = .UNUSED) : own q = 0 := by
  rw [(h.idle q (h.not_busy_of_unused hq)).1, recordPages, if_pos hq]

/-! ## §4. Two ways to get from `Owns` to `Owns`. -/

theorem Owns.same (hheap : s'.heap.free = s.heap.free) (hproc : ∀ q, SameMem (s.proc q) (s'.proc q))
    (hwork : ∀ p w, s'.path p = .work w ↔ s.path p = .work w) (hcur : ∀ p, Current s' p) :
    Owns s' own := by
  have hbusy : ∀ q, s'.Busy q ↔ s.Busy q := fun q =>
    exists_congr fun p => exists_congr fun w => and_congr_left fun _ => hwork p w
  constructor
  · rw [hheap]
    exact h.nodup
  · exact fun q => (hproc q).recordOk (h.record q)
  · intro q hq
    obtain ⟨hown, hst⟩ := h.idle q ((hbusy q).not.mp hq)
    refine ⟨hown.trans (hproc q).recordPages.symm, ?_⟩
    rw [Ne, (hproc q).state_iff _ (by decide)]
    exact hst
  · exact fun p w hw => (hproc _).workOk (h.busy p w ((hwork p w).mp hw))
  · exact fun p p' w w' hw hw' => h.exclusive p p' w w' ((hwork p w).mp hw) ((hwork p' w').mp hw')
  · exact hcur

/-- The path of `p` works on the pages of slot `q`, as no other does; afterwards they are `o`. -/
theorem Owns.replace (p q : Slot) (o : Multiset Pa)
    (hnodup : ((s'.heap.free : Multiset Pa) + ∑ q', update own q o q').Nodup)
    (hproc : ∀ q', q' ≠ q → SameMem (s.proc q') (s'.proc q'))
    (hpath : ∀ p', p' ≠ p → s'.path p' = s.path p')
    (halone : ∀ p' w, p' ≠ p → s.path p' = .work w → w.target p' ≠ q)
    (hbefore : ∀ w, s.path p = .work w → w.target p = q)
    (hafter : ∀ w, s'.path p = .work w → w.target p = q ∧ WorkOk (s'.proc q) o w)
    (hidle : (∀ w, s'.path p ≠ .work w) → o = recordPages (s'.proc q) ∧ (s'.proc q).state ≠ .USED)
    (hrecord : RecordOk (s'.proc q)) (hcur : ∀ p', Current s' p') :
    Owns s' (update own q o) := by
  have hother : ∀ q', q' ≠ q → update own q o q' = own q' := fun q' hq' =>
    update_of_ne hq' o own
  constructor
  · exact hnodup
  · intro q'
    by_cases hq' : q' = q
    · exact hq' ▸ hrecord
    · exact (hproc q' hq').recordOk (h.record q')
  · intro q' hb
    by_cases hq' : q' = q
    · subst hq'
      rw [update_self]
      exact hidle fun w hw => hb ⟨p, w, hw, (hafter w hw).1⟩
    · have hb' : ¬ s.Busy q' := by
        rintro ⟨p', w, hw, htarget⟩
        by_cases hp' : p' = p
        · exact hq' (htarget.symm.trans (hp' ▸ hbefore w (hp' ▸ hw)))
        · exact hb ⟨p', w, (hpath p' hp').trans hw, htarget⟩
      obtain ⟨hown, hst⟩ := h.idle q' hb'
      rw [hother q' hq', (hproc q' hq').recordPages, Ne, (hproc q' hq').state_iff _ (by decide)]
      exact ⟨hown, hst⟩
  · intro p' w hw
    by_cases hp' : p' = p
    · subst hp'
      obtain ⟨htarget, hok⟩ := hafter w hw
      rw [htarget, update_self]
      exact hok
    · rw [hpath p' hp'] at hw
      have hne := halone p' w hp' hw
      rw [hother _ hne]
      exact (hproc _ hne).workOk (h.busy p' w hw)
  · intro p₁ p₂ w₁ w₂ hw₁ hw₂ heq
    by_cases h₁ : p₁ = p
    · by_cases h₂ : p₂ = p
      · exact h₁.trans h₂.symm
      · rw [hpath p₂ h₂] at hw₂
        subst h₁
        exact absurd (heq.symm.trans (hafter w₁ hw₁).1) (halone p₂ w₂ h₂ hw₂)
    · rw [hpath p₁ h₁] at hw₁
      by_cases h₂ : p₂ = p
      · subst h₂
        exact absurd (heq.trans (hafter w₂ hw₂).1) (halone p₁ w₁ h₁ hw₁)
      · rw [hpath p₂ h₂] at hw₂
        exact h.exclusive p₁ p₂ w₁ w₂ hw₁ hw₂ heq
  · exact hcur

theorem Owns.nodup_le (hle : o ≤ own q) :
    ((s.heap.free : Multiset Pa) + ∑ q', update own q o q').Nodup := by
  refine Multiset.nodup_of_le (add_le_add_right (sum_le_sum fun q' _ => ?_) _) h.nodup
  by_cases hq : q' = q
  · subst hq
    rw [update_self]
    exact hle
  · rw [update_of_ne hq]

theorem Owns.nodup_moves {who : Nat}
    {heap : Heap Pa UInt32} (hm : Moves who s.heap heap (own q) o) :
    ((heap.free : Multiset Pa) + ∑ q', update own q o q').Nodup := by
  have hsum : (heap.free : Multiset Pa) + ∑ q', update own q o q' = s.heap.free + ∑ q', own q' := by
    rw [sum_update_of_mem (mem_univ q), sdiff_singleton_eq_erase,
      ← add_sum_erase _ own (mem_univ q), ← add_assoc, ← add_assoc, hm.conserve]
  rw [hsum]
  exact h.nodup

end

theorem Current.congr {p : Slot} (h : Current s p) (hstate : (s'.proc p).state = (s.proc p).state)
    (hthreads : (s'.proc p).threads = (s.proc p).threads) (hpath : s'.path p = s.path p)
    (hthread : s'.thread p = s.thread p) : Current s' p := by
  unfold Current at *
  rw [hstate, hthreads, hpath, hthread]
  exact h

theorem current_of_not_running {p : Slot} (h : (s.proc p).state ≠ .RUNNING) : Current s p :=
  fun hrun => absurd hrun h

end Owns

/-! ## §5. The effects of a program. -/

theorem Work.step_ok {ld : Layout} {who : Nat} {heap heap' : Heap Pa UInt32} {r : Proc}
    {o : Multiset Pa} {w w' : Work} (hok : WorkOk r o w)
    (hs : w.step ld who heap = some (w', heap')) :
    ∃ o', WorkOk r o' w' ∧ Moves who heap heap' o o' ∧ ∀ p, w'.target p = w.target p := by
  cases w with
  | image prog | threads prog =>
    obtain ⟨hl, mem, hown, hwp⟩ := hok
    obtain ⟨⟨prog', heap''⟩, hstep, he⟩ := Option.map_eq_some_iff.mp hs
    cases he
    obtain ⟨mem', hwp', hm⟩ := Prog.step_wp hwp hstep
    exact ⟨_, ⟨hl, mem', rfl, hwp'⟩, hown ▸ hm.frame _, fun p => rfl⟩
  | child np prog =>
    obtain ⟨hst, hth, hwp⟩ := hok
    obtain ⟨⟨prog', heap''⟩, hstep, he⟩ := Option.map_eq_some_iff.mp hs
    cases he
    obtain ⟨o', hwp', hm⟩ := Prog.step_wp hwp hstep
    exact ⟨o', ⟨hst, hth, hwp'⟩, hm, fun p => rfl⟩
  | reap pp prog =>
    obtain ⟨hst, hwp⟩ := hok
    obtain ⟨⟨prog', heap''⟩, hstep, he⟩ := Option.map_eq_some_iff.mp hs
    cases he
    obtain ⟨o', hwp', hm⟩ := Prog.step_wp hwp hstep
    exact ⟨o', ⟨hst, hwp'⟩, hm, fun p => rfl⟩

section Steps

variable {s : State} {own : Slot → Multiset Pa} {p q : Slot}

theorem current_setPath (h : Owns s own) {path : Path} (hp : Current (s.setPath p path) p)
    (p' : Slot) : Current (s.setPath p path) p' := by
  by_cases hp' : p' = p
  · exact hp' ▸ hp
  · exact (h.current p').congr rfl rfl (by simp [hp']) rfl

theorem Owns.start (h : Owns s own) (hp : s.InUser p) {w : Work} (htarget : w.target p = p)
    (hok : WorkOk (s.proc p) (own p) w) : Owns (s.setPath p (.work w)) own := by
  have hfree : ¬ s.Busy p :=
    h.not_busy_of_live (.inr (.inr hp.1)) fun w hw => by rw [hp.2] at hw; cases hw
  rw [← update_eq_self p own]
  refine h.replace p p (own p) (h.nodup_le le_rfl) (fun q' _ => SameMem.refl _)
    (fun p' hp' => by simp [hp']) (fun p' w' _ hw' ht => hfree ⟨p', w', hw', ht⟩)
    (fun w' hw' => by rw [hp.2] at hw'; cases hw') ?_ ?_ (h.record p) ?_
  · intro w' hw'
    rw [State.setPath_path, if_pos rfl] at hw'
    cases hw'
    exact ⟨htarget, hok⟩
  · intro hno
    exact absurd (by simp) (hno w)
  · refine current_setPath h fun hrun _ => ?_
    exact h.current p hrun (by rw [hp.2]; rfl)

theorem Owns.effect (h : Owns s own) {ld : Layout} {w w' : Work} {heap : Heap Pa UInt32}
    (hw : s.path p = .work w)
    (hstep : w.step ld (s.born (w.target p)) s.heap = some (w', heap)) :
    ∃ o, Owns ((s.setPath p (.work w')).setHeap heap) (update own (w.target p) o) ∧
      Moves (s.born (w.target p)) s.heap heap (own (w.target p)) o := by
  obtain ⟨o, hok, hm, htarget⟩ := Work.step_ok (h.busy p w hw) hstep
  refine ⟨o, h.replace p (w.target p) o (h.nodup_moves hm) (fun q' _ => SameMem.refl _)
    (fun p' hp' => by simp [hp']) ?_ ?_ ?_ ?_ (h.record _) ?_, hm⟩
  · intro p' w'' hp' hw'' ht
    exact hp' (h.exclusive p' p w'' w hw'' hw ht)
  · intro w'' hw''
    rw [hw] at hw''
    cases hw''
    rfl
  · intro w'' hw''
    rw [State.setHeap_path, State.setPath_path, if_pos rfl] at hw''
    cases hw''
    exact ⟨htarget p, hok⟩
  · intro hno
    exact absurd (by simp) (hno w')
  · intro p'
    by_cases hp' : p' = p
    · subst hp'
      exact fun hrun _ => h.current p' hrun (by rw [hw]; rfl)
    · exact (h.current p').congr rfl rfl (by simp [hp']) rfl

end Steps

end Xv6.Mem
