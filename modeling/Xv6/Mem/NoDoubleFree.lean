/-
  Xv6.Mem.NoDoubleFree — no page is freed while it is owned.

  thread_cleanup of the main thread breaks this: entry 0 of the thread table shares
  its trapframe with the process.
-/
import Xv6.Mem.Steps
import Xv6.Mem.Sequential

namespace Xv6.Mem

open Lib List

/-! ## §1. Boot. -/

theorem freerange_nodup (kend : Pa) : (freerange kend).Nodup := by
  refine List.Nodup.map ?_ nodup_range
  intro i j hij
  exact Nat.eq_of_mul_eq_mul_right (by decide : 0 < PGSIZE) (Nat.add_left_cancel hij)

theorem kinit_no_alloc (ld : Layout) (who : Nat) (r : Pa) (l₁ l₂ : List (Event Pa)) :
    (kinit ld).trace ≠ l₁ ++ .alloc who r :: l₂ := by
  intro he
  have hmem : Event.alloc who r ∈ (freerange ld.kend).map Event.free := by
    show _ ∈ (kinit ld).trace
    rw [he]
    exact mem_append_right _ mem_cons_self
  obtain ⟨_, _, he⟩ := mem_map.mp hmem
  cases he

theorem sound_kinit (ld : Layout) : Sound (kinit ld) := by
  constructor
  · rintro r ⟨l₁, l₂, htr, _⟩
    have hmem : Event.free r ∈ (freerange ld.kend).map Event.free := by
      show _ ∈ (kinit ld).trace
      rw [htr]
      exact mem_append_right _ mem_cons_self
    obtain ⟨r', hr', he⟩ := mem_map.mp hmem
    cases he
    exact mem_reverse.mpr hr'
  · rintro who r ⟨l₁, l₂, htr, _⟩
    exact absurd htr (kinit_no_alloc ld who r l₁ l₂)
  · intro l₁ l₂ l₃ r htr
    have hnd : ((freerange ld.kend).map Event.free).Nodup :=
      (freerange_nodup ld.kend).map fun _ _ he => Event.free.inj he
    rw [show (freerange ld.kend).map Event.free = _ from htr] at hnd
    have hdis := disjoint_of_nodup_append hnd
    exact absurd mem_cons_self
      (hdis (mem_append_right _ mem_cons_self))
  · intro l₁ l₂ l₃ r who who' htr
    rw [append_assoc] at htr
    exact absurd htr (kinit_no_alloc ld who r l₁ _)

theorem kernelTakes_wp (n : Nat) (own : Multiset Pa) :
    (kernelTakes n).wp (fun _ _ => True) own := by
  induction n generalizing own with
  | zero => trivial
  | succ n ih => exact ⟨trivial, fun r => ih _⟩

theorem bootProg_wp (ld : Layout) (n : Nat) (own : Multiset Pa) : (bootProg ld n).wp
      (fun r own => ∃ rest, own = pagesOf (some r.1) (some r.2.pagetable) + rest ∧ r.2.Ok r.1)
      own := by
  unfold bootProg
  rw [Prog.wp_bind]
  refine Prog.wp_mono (kernelTakes_wp n own) ?_
  intro _ own _
  refine Prog.wp_mono (userinit_spec ld.trampoline own) ?_
  rintro r own ⟨lost, hown, hok⟩
  exact ⟨_, hown, hok⟩

variable {ld : Layout} {s : State} {own : Slot → Multiset Pa}

theorem boot_owns {n : Nat} (h : boot ld n = some s) : ∃ own, Owns s own ∧ Sound s.heap := by
  obtain ⟨⟨⟨tf, image⟩, heap⟩, hrun, he⟩ := Option.map_eq_some_iff.mp h
  subst he
  -- along the boot program: the history is sound, and nothing is owned twice
  obtain ⟨own, ⟨rest, hown, hok⟩, hsound, hnd⟩ := Prog.run_wp
    (fun h own => Sound h ∧ ((h.free : Multiset Pa) + own).Nodup)
    (fun h h' own own' hi hm => ⟨hi.1.moves hm hi.2, hm.conserve ▸ hi.2⟩)
    (bootProg_wp ld n 0)
    ⟨sound_kinit ld, by
      rw [add_zero, Multiset.coe_nodup]
      exact nodup_reverse.mpr (freerange_nodup ld.kend)⟩ hrun
  dsimp only at hown hok hsound hnd
  refine ⟨Function.update (fun _ => 0) 0 (pagesOf (some tf) (some image.pagetable)), ?_, hsound⟩
  have hproc : ∀ q, (firstState (tf, image) heap).proc q =
      if q = 0 then firstProc (tf, image) else Proc.init := fun _ => rfl
  constructor
  · rw [Finset.sum_update_of_mem (Finset.mem_univ 0), Finset.sum_const_zero, add_zero]
    rw [hown, ← add_assoc] at hnd
    exact (Multiset.nodup_add.mp hnd).1
  · intro q
    rw [hproc q]
    split
    · exact .of_image (.inl (.inr (.inl rfl))) rfl rfl hok
    · exact .of_empty (.inl rfl) ⟨rfl, rfl, rfl⟩
  · intro q _
    rw [hproc q]
    split
    · next hq =>
      subst hq
      rw [Function.update_self]
      refine ⟨?_, nofun⟩
      show _ = pagesOf (some tf) (some image.pagetable) + threadPages (fun _ => Thread.zero)
      rw [show threadPages (fun _ => Thread.zero) = 0 by decide, add_zero]
    · next hq =>
      rw [Function.update_of_ne hq]
      exact ⟨rfl, nofun⟩
  · intro p w hw
    cases hw
  · intro p p' w w' hw
    cases hw
  · intro q
    refine current_of_not_running ?_
    rw [hproc q]
    split <;> exact nofun

/-! ## §2. Runs. -/

def Inv (s : State) (own : Slot → Multiset Pa) : Prop := Owns s own ∧ Sound s.heap

theorem Owns.nodup_one (h : Owns s own) (q : Slot) :
    ((s.heap.free : Multiset Pa) + own q).Nodup := by
  refine Multiset.nodup_of_le (add_le_add_right ?_ _) h.nodup
  exact Finset.single_le_sum (fun q' _ => Multiset.zero_le (own q')) (Finset.mem_univ q)

theorem step_inv {s s' : State} {a : Act} (h : Inv s own) (hs : Step ld a s s') (hok : Spares s a) :
    ∃ own', Inv s' own' ∧ Shift s s' own own' := by
  obtain ⟨own', howns, hshift⟩ := step_owns h.1 hs hok
  refine ⟨own', ⟨howns, ?_⟩, hshift⟩
  cases hshift with
  | still hheap _ | reaps pp hheap _ _ _ => exact hheap ▸ h.2
  | moves q o _ hm _ => exact h.2.moves hm (h.1.nodup_one q)

theorem run_inv (h : RunWith ld Spares s) : ∃ own, Inv s own := by
  refine Reachable.invariant (fun s => ∃ own, Inv s own) ?_ ?_ h
  · rintro s ⟨n, hn⟩
    exact boot_owns hn
  · rintro s s' ⟨own, hinv⟩ ⟨a, hs, hok⟩
    obtain ⟨own', hinv', _⟩ := step_inv hinv hs hok
    exact ⟨own', hinv'⟩

/-! ## §3. What this means for kalloc and kfree. -/

/-- No page is freed twice or handed out twice, and the pages of live processes are not free. -/
structure PagesKept (s : State) : Prop where
  noDoubleFree : NoDoubleFree s.heap.trace
  noDoubleAlloc : NoDoubleAlloc s.heap.trace
  trapframe : ∀ p, Live (s.proc p).state →
    ∃ tf pagetable, (s.proc p).trapframe = some tf ∧ (s.proc p).pagetable = some pagetable ∧
      (pagetable.lookup TRAPFRAME).map Leaf.pa = some tf ∧ tf ∉ s.heap.free
  inUse : ∀ p, ¬ s.Busy p → ∀ pa ∈ recordPages (s.proc p), pa ∉ s.heap.free

theorem Owns.not_free (h : Owns s own) {q : Slot} {pa : Pa}
    (hpa : pa ∈ own q) : pa ∉ s.heap.free := by
  intro hfree
  have hdis := (Multiset.nodup_add.mp (h.nodup_one q)).2.2
  exact Multiset.disjoint_left.mp hdis (Multiset.mem_coe.mpr hfree) hpa

theorem Owns.trapframe_mem (h : Owns s own) {p : Slot}
    {tf : Pa} (hl : Live (s.proc p).state) (htf : (s.proc p).trapframe = some tf) : tf ∈ own p := by
  by_cases hb : s.Busy p
  · obtain ⟨p', w, hw, htarget⟩ := hb
    have hok := h.busy p' w hw
    rw [htarget] at hok
    cases w with
    | image prog =>
      obtain ⟨_, mem, hown, _⟩ := hok
      rw [hown, htf]
      simp
    | threads prog =>
      obtain ⟨_, mem, hown, _⟩ := hok
      rw [hown, htf]
      simp [pagesOf]
    | child np prog | reap pp prog =>
      rw [hok.1] at hl
      exact absurd hl (by decide)
  · have hne : (s.proc p).state ≠ .UNUSED := fun he => by
      rw [he] at hl
      exact absurd hl (by decide)
    rw [(h.idle p hb).1, recordPages_of_ne hne, htf]
    simp [pagesOf]

/-- **No page is freed while it is owned**, as long as no thread_cleanup is for
the main thread. -/
theorem pages_kept_while_owned (ld : Layout) (s : State) (h : RunWith ld Spares s) :
    PagesKept s := by
  obtain ⟨own, howns, hsound⟩ := run_inv h
  constructor
  · exact hsound.noDoubleFree
  · exact hsound.noDoubleAlloc
  · intro p hl
    obtain ⟨tf, image, htf, himage, hok⟩ := (howns.record p).live (.inl hl)
    exact ⟨tf, image.pagetable, htf, (imageOf_eq_some himage).1, hok.trapframe,
      howns.not_free (howns.trapframe_mem hl htf)⟩
  · intro p hb pa hpa
    rw [← (howns.idle p hb).1] at hpa
    exact howns.not_free hpa

/-! ## §4. The main thread. -/

def smallLayout : Layout := { kend := PHYSTOP - 20 * PGSIZE, trampoline := 0x80007000 }

def AnyCall (_ : State) (_ : Act) : Prop := True

instance (s : State) (a : Act) : Decidable (AnyCall s a) := inferInstanceAs (Decidable True)

instance (s : State) : (a : Act) → Decidable (Spares s a)
  | .threadCleanup .. => inferInstanceAs (Decidable (SparesMain _ _))
  | .fork .. | .createThread .. | .joinThread .. | .growproc .. | .exec .. | .callExit .. | .exit ..
  | .wait .. | .goOn .. | .dispatch .. | .leave .. | .wakeup .. => inferInstanceAs (Decidable True)

/-- init makes a thread and a child; the child's main thread, number 3, stops itself. -/
def mainStops : List Call :=
  [.dispatch 0, .createThread 0, .fork 0 1, .leave 0, .dispatch 1, .createThread 1,
    .threadCleanup 1 3]

/-- The child is still running, and its trapframe is on the free list. -/
theorem trapframe_freed_while_running :
    ∃ s, RunWith smallLayout AnyCall s ∧ (s.proc 1).state = .RUNNING ∧
      (∃ tf, (s.proc 1).trapframe = some tf ∧ tf ∈ s.heap.free) ∧ ¬ PagesKept s := by
  have hcalls : ((bootCalls smallLayout AnyCall mainStops).any fun s =>
      (s.proc 1).state = .RUNNING ∧ ∃ tf ∈ s.heap.free, (s.proc 1).trapframe = some tf) = true := by
    decide +kernel
  obtain ⟨s, hs, htest⟩ :=
    exists_run_bootCalls (fun _ _ => trivial) (fun _ _ _ => trivial) hcalls
  obtain ⟨hrun, tf, hfree, htf⟩ := of_decide_eq_true htest
  refine ⟨s, hs, hrun, ⟨tf, htf, hfree⟩, fun hkept => ?_⟩
  obtain ⟨tf', _, htf', _, _, hnot⟩ := hkept.trapframe 1 (.inr (.inr hrun))
  rw [htf] at htf'
  cases htf'
  exact hnot hfree

def threadStops : List Call :=
  [.dispatch 0, .createThread 0, .fork 0 1, .leave 0, .dispatch 1, .createThread 1,
    .threadCleanup 1 4]

theorem pages_kept_while_owned_threadStops :
    ∃ s, RunWith smallLayout Spares s ∧ (s.proc 1).state = .RUNNING ∧ PagesKept s := by
  have hcalls : ((bootCalls smallLayout Spares threadStops).any fun s =>
      (s.proc 1).state = .RUNNING) = true := by
    decide +kernel
  obtain ⟨s, hs, htest⟩ :=
    exists_run_bootCalls (fun _ _ => trivial) (fun _ _ _ => trivial) hcalls
  exact ⟨s, hs, of_decide_eq_true htest, pages_kept_while_owned smallLayout s hs⟩

end Xv6.Mem
