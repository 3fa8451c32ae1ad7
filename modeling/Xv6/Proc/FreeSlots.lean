/-
  Xv6.Proc.FreeSlots — what is left in a free slot of the process table.

  kill compares pids and not states, and a free slot has pid 0.
-/
import Xv6.Proc.Slots

namespace Xv6.Slots

open Lib Function Lifecycle.State Lifecycle

/-! ## §1. The invariant. -/

/-- kill is not called with pid 0. -/
def KillsProcesses (_ : State) : Act → Prop
  | .kill _ pid => pid ≠ 0
  | _ => True

structure Inv (s : State) : Prop where
  tree : Lifecycle.TreeInv s.life
  clean : ∀ q, s.life.state q = .UNUSED → Clean (s.life.proc q) (s.files q)
  /-- A free slot has pid 0, and nobody is looking for that. -/
  pid : ∀ q, s.life.state q = .UNUSED → (s.life.proc q).pid = 0
  killing : ∀ p pid i, s.killing p = some (pid, i) → pid ≠ 0
  emptied : ∀ q, Emptied s.life q → s.files q = noFiles

section Records

open Lifecycle (TreeInv)

variable {b : Lifecycle.State}

theorem treeInv_setProc (ht : TreeInv b) {k : Slot} {r : Proc} (hst : r.state = b.state k)
    (hpar : r.parent = b.parent k) : TreeInv (b.setProc k r) := by
  have hstate : (b.setProc k r).state = b.state := by
    funext q
    rw [setProc_state]
    split
    · next hq => rw [hq, hst]
    · rfl
  have hparent : (b.setProc k r).parent = b.parent := by
    funext q
    rw [setProc_parent]
    split
    · next hq => rw [hq, hpar]
    · rfl
  constructor
  · rw [hstate]
    exact ht.fits
  · rw [hstate]
    exact ht.blank
  · rw [hstate]
    exact ht.init
  · rw [hstate]
    exact ht.positive
  · rw [hstate]
    exact ht.numbered
  · rw [hstate]
    exact ht.forked
  · exact ht.forkers
  · exact ht.notInit
  · rw [hparent]
    exact ht.orphaned
  · rw [hstate, hparent]
    exact ht.live
  · rw [hstate, hparent]
    exact ht.present
  · rw [hparent]
    exact ht.older

theorem emptied_setProc {k q : Slot} {r : Proc}
    (hst : r.state = .UNUSED ∨ r.state = .ZOMBIE → r.state = b.state k)
    (h : Emptied (b.setProc k r) q) : Emptied b q := by
  have hstate : ∀ st, st = .UNUSED ∨ st = .ZOMBIE → (b.setProc k r).state q = st →
      b.state q = st := by
    intro st hst' he
    rw [setProc_state] at he
    split at he
    · next hq =>
      rw [hq, ← he]
      rw [← he] at hst'
      exact (hst hst').symm
    · exact he
  cases h with
  | unused h => exact .unused (hstate _ (.inl rfl) h)
  | zombie h => exact .zombie (hstate _ (.inr rfl) h)
  | exiting h => exact .exiting h
  | forking p h => exact .forking p h

end Records

section Invariant

variable {s s' : State} {a : Act} {life : Lifecycle.State}

section

variable (h : Inv s) (hs : Lifecycle.Step s.life life)
  (hkill : ∀ q, life = s.life.killSlot q → s.life.state q ≠ .UNUSED)

include h hs hkill

theorem unused_of_step {q : Slot} (hq : life.state q = .UNUSED) :
    (s.life.state q = .UNUSED ∧ life.proc q = s.life.proc q) ∨
      life.proc q = (s.life.proc q).freed := by
  cases recordChange h.tree hs q with
  | same he =>
    refine .inl ⟨?_, he⟩
    rw [← hq]
    exact (congrArg Proc.state he).symm
  | killed he =>
    -- a sleeping process wakes up, any other keeps its state
    refine absurd ?_ (hkill q he)
    rw [he] at hq
    show (s.life.proc q).state = .UNUSED
    unfold Lifecycle.State.killSlot at hq
    rw [setProc_state, if_pos rfl] at hq
    dsimp only at hq
    split at hq
    · cases hq
    · exact hq
  | freed he => exact .inr he
  | used hne _ => exact absurd hq hne

theorem Inv.step {files : Slot → Files} (hfiles : ∀ q, Emptied life q → files q = noFiles)
    (np : Slot → Option Slot) : Inv { s with life := life, files := files, np := np } where
  tree := treeInv_step h.tree hs
  clean q hq := by
    show Clean (life.proc q) (files q)
    rw [hfiles q (.unused hq)]
    rcases unused_of_step h hs hkill hq with ⟨hu, he⟩ | he
    · rw [he, ← (h.clean q hu).files]
      exact h.clean q hu
    · rw [he]
      exact clean_freed _
  pid q hq := by
    show (life.proc q).pid = 0
    rcases unused_of_step h hs hkill hq with ⟨hu, he⟩ | he
    · rw [he]
      exact h.pid q hu
    · rw [he]
      rfl
  killing := h.killing
  emptied := hfiles

end

theorem Inv.record (h : Inv s) {k : Slot} {r : Proc} (htree : Lifecycle.TreeInv (s.life.setProc k r))
    (hst : r.state = .UNUSED ∨ r.state = .ZOMBIE → r.state = s.life.state k)
    (hr : r.state = .UNUSED → ∃ d, r = { s.life.proc k with deadline := d })
    (np : Slot → Option Slot) : Inv { s with life := s.life.setProc k r, np := np } where
  tree := htree
  clean q hq := by
    show Clean ((s.life.setProc k r).proc q) (s.files q)
    change (s.life.setProc k r).state q = .UNUSED at hq
    rw [setProc_state] at hq
    show Clean (update s.life.proc k r q) (s.files q)
    by_cases hqk : q = k
    · subst hqk
      rw [if_pos rfl] at hq
      have hu : s.life.state q = .UNUSED := by rw [← hst (.inl hq), hq]
      obtain ⟨d, rfl⟩ := hr hq
      obtain ⟨hk, hc, hp, hx, hf⟩ := h.clean q hu
      rw [update_self]
      exact ⟨hk, hc, hp, hx, hf⟩
    · rw [if_neg hqk] at hq
      rw [update_of_ne hqk]
      exact h.clean q hq
  pid q hq := by
    change (s.life.setProc k r).state q = .UNUSED at hq
    rw [setProc_state] at hq
    show (update s.life.proc k r q).pid = 0
    by_cases hqk : q = k
    · subst hqk
      rw [if_pos rfl] at hq
      have hu : s.life.state q = .UNUSED := by rw [← hst (.inl hq), hq]
      obtain ⟨d, rfl⟩ := hr hq
      rw [update_self]
      exact h.pid q hu
    · rw [if_neg hqk] at hq
      rw [update_of_ne hqk]
      exact h.pid q hq
  killing := h.killing
  emptied q hq := h.emptied q (emptied_setProc hst hq)

theorem marked_state (r : Proc) : (marked r).state = r.state ∨ (marked r).state = .RUNNABLE := by
  unfold marked
  dsimp only
  split
  · exact .inr rfl
  · exact .inl rfl

theorem Inv.mark (h : Inv s) {k : Slot} (hl : s.life.lock k = none)
    (hk : s.life.state k ≠ .UNUSED) :
    Inv { s with life := s.life.setProc k (marked (s.life.proc k)) } := by
  refine h.record ?_ ?_ ?_ s.np
  · exact treeInv_step h.tree (.kill hl)
  · intro hst
    rcases marked_state (s.life.proc k) with he | he
    · exact he
    · rw [he] at hst
      rcases hst with hst | hst <;> cases hst
  · intro hst
    rcases marked_state (s.life.proc k) with he | he
    · exact absurd (he.symm.trans hst) hk
    · rw [he] at hst
      cases hst

variable {killing : Slot → Option (UInt32 × Nat)} {p : Slot}

theorem Inv.loops (h : Inv s)
    (hk : ∀ p pid i, killing p = some (pid, i) → pid ≠ 0) (dropping : Option (UInt32 × Nat))
    (ticks : UInt32) :
    Inv { s with killing := killing, dropping := dropping, ticks := ticks } where
  tree := h.tree
  clean := h.clean
  pid := h.pid
  killing := hk
  emptied := h.emptied

theorem Inv.setFiles (h : Inv s) (files : Files) (hr : s.life.state p = .RUNNING)
    (hp : closed (s.life.path p) = false) :
    Inv { s with files := update s.files p files } := by
  have hne : ∀ q, Emptied s.life q → q ≠ p := by
    intro q hq he
    subst he
    cases hq with
    | unused hu => rw [hr] at hu; cases hu
    | zombie hz => rw [hr] at hz; cases hz
    | exiting hx => rw [hp] at hx; cases hx
    | forking p' hf =>
      have hused := (h.tree.forked p' q (by rw [hf]; rfl)).1
      rw [hr] at hused
      cases hused
  refine ⟨h.tree, fun q hq => ?_, h.pid, h.killing, fun q hq => ?_⟩
  · show Clean _ (update s.files p files q)
    rw [update_of_ne (hne q (.unused hq))]
    exact h.clean q hq
  · show update s.files p files q = noFiles
    rw [update_of_ne (hne q hq)]
    exact h.emptied q hq

theorem update_killing
    (h : ∀ p pid i, killing p = some (pid, i) → pid ≠ 0) {k : Option (UInt32 × Nat)}
    (hk : ∀ pid i, k = some (pid, i) → pid ≠ 0) (p' : Slot) (pid : UInt32) (i : Nat)
    (he : update killing p k p' = some (pid, i)) : pid ≠ 0 := by
  rw [update_apply] at he
  split at he
  · exact hk pid i he
  · exact h p' pid i he

theorem ne_killSlot (hp : life.path p ≠ s.life.path p) (q : Slot)
    (he : life = s.life.killSlot q) : s.life.state q ≠ .UNUSED := by
  refine absurd ?_ hp
  rw [he]
  rfl

theorem not_emptied_of_link (ht : Lifecycle.TreeInv life) {p np : Slot}
    (hp : life.path p = .forkLink np) : ¬ Emptied life np := by
  have hused := (ht.forked p np (by rw [hp]; rfl)).1
  have huser : life.path np = .user := by
    have hfits := ht.fits np
    rw [hused] at hfits
    exact hfits
  intro hq
  cases hq with
  | unused h | zombie h => rw [hused] at h; cases h
  | exiting h => rw [huser] at h; cases h
  | forking p' h =>
    have he := ht.forkers p p' np (by rw [hp]; rfl) (by rw [h]; rfl)
    rw [← he, hp] at h
    cases h

theorem not_emptied_init (ht : Lifecycle.TreeInv life) (hp : life.initproc = some p) :
    ¬ Emptied life p := by
  have hlive := (ht.init p hp).1
  intro hq
  cases hq with
  | unused h => exact live_ne_unused hlive h
  | zombie h => rw [h] at hlive; rcases hlive with h | h | h <;> cases h
  | exiting h =>
    refine ht.notInit p ?_ hp
    generalize life.path p = path at h
    cases path <;> first | rfl | cases h
  | forking p' h =>
    have hused := (ht.forked p' p (by rw [h]; rfl)).1
    rw [hused] at hlive
    rcases hlive with h | h | h <;> cases h

/-- **One step keeps free slots clean.** -/
theorem inv_step (h : Inv s) (hs : Step a s s') (hok : KillsProcesses s a) : Inv s' := by
  cases hs with
  | @plain _ life hp =>
    refine h.step hp.step (fun q he hu => ?_) (fun q hq => ?_) s.np
    · -- a kill that marks nobody has found the mark
      have hk := hp.unmarked q (by rw [he]; simp [Lifecycle.State.killSlot, Lifecycle.State.setProc])
      rw [(h.clean q hu).killed] at hk
      cases hk
    · refine h.emptied q (emptied_of_step hp.step (fun status hexit henter => ?_) hq)
      have hquiet := hp.quiet q
      rw [hexit, henter] at hquiet
      cases hquiet
  | @userinit _ life p root hlife hi hi' =>
    have ht := treeInv_step h.tree hlife
    refine h.step hlife (fun q he => ?_) (fun q hq => ?_) s.np
    · have hsame : life.initproc = s.life.initproc := by
        rw [he]
        rfl
      rw [hi, hi'] at hsame
      cases hsame
    · have hqp : q ≠ p := fun e => not_emptied_init ht hi' (e ▸ hq)
      rw [update_of_ne hqp]
      refine h.emptied q (.unused ((h.tree.blank hi).2 q))
  | @forkCopied _ life p np hlife hp hp' =>
    have ht := treeInv_step h.tree hlife
    have hne : life.path p ≠ s.life.path p := by rw [hp, hp']; simp
    refine h.step hlife (ne_killSlot hne) (fun q hq => ?_) s.np
    have hqnp : q ≠ np := fun e => not_emptied_of_link ht hp' (e ▸ hq)
    rw [update_of_ne hqnp]
    refine h.emptied q (emptied_of_step hlife (fun status hexit => ?_) hq)
    have hqp : q ≠ p := fun e => by rw [e, hp] at hexit; cases hexit
    exact not_entering hlife hne (by rw [hp']; simp)
      (live_ne_unused (h.tree.live_of_forking (by rw [hp]; rfl))) hqp status hexit
  | @forkRun _ life p np hlife hp hp' =>
    have hne : life.path p ≠ s.life.path p := by rw [hp, hp']; simp
    refine h.step hlife (ne_killSlot hne) (fun q hq => ?_) _
    refine h.emptied q (emptied_of_step hlife (fun status hexit => ?_) hq)
    have hqp : q ≠ p := fun e => by rw [e, hp] at hexit; cases hexit
    exact not_entering hlife hne (by rw [hp']; simp)
      (live_ne_unused (h.tree.live_of_forking (by rw [hp]; rfl))) hqp status hexit
  | @exit _ life p status hlife hp hp' hclosed =>
    have hne : life.path p ≠ s.life.path p := by rw [hp, hp']; simp
    have hlive := live_ne_unused (h.tree.live_of_exiting (by rw [hp]; rfl))
    refine h.step hlife (ne_killSlot hne) (fun q hq => ?_) s.np
    by_cases hqp : q = p
    · rw [hqp]
      exact hclosed
    · exact h.emptied q (emptied_of_step hlife
        (not_entering hlife hne (by rw [hp']; simp) hlive hqp) hq)
  | @deadfork _ p np ttl hr hp hnp =>
    refine h.record ?_ ?_ ?_ (update s.np p none)
    · exact treeInv_setProc h.tree rfl rfl
    · exact fun _ => rfl
    · exact fun _ => ⟨_, rfl⟩
  | files hr hp | close hr hp | iput hr hp => exact h.setFiles _ hr (by rw [hp]; rfl)
  | @kill _ p pid hr hp hk =>
    refine h.loops (update_killing h.killing fun pid' i he => ?_) s.dropping s.ticks
    cases he
    exact hok
  | @killNext _ p q pid hr hk hl =>
    have hpid := h.killing p pid q hk
    unfold killIter
    split
    · next he =>
      -- the slot has the pid, so it is not free
      have hused : s.life.state q ≠ .UNUSED := fun hu => hpid (he ▸ h.pid q hu)
      exact (h.mark hl hused).loops
        (update_killing h.killing fun _ _ he => by cases he) s.dropping s.ticks
    · have hself : s.life.setProc q (s.life.proc q) = s.life := by
        simp [Lifecycle.State.setProc]
      dsimp only
      rw [hself]
      refine h.loops (update_killing h.killing fun pid' i he => ?_) s.dropping s.ticks
      cases he
      exact hpid
  | killNone hr hk =>
    exact h.loops (update_killing h.killing fun _ _ he => by cases he) s.dropping s.ticks
  | @setkilled _ p hr hp hl =>
    refine h.record ?_ ?_ ?_ s.np
    · exact treeInv_setProc h.tree rfl rfl
    · exact fun _ => rfl
    · intro hu
      change s.life.state p = .UNUSED at hu
      rw [hr] at hu
      cases hu
  | tick hd | dropDone hd => exact h.loops h.killing _ _
  | @dropNext _ q deadline hd hl =>
    unfold dropDead
    split
    · next hover =>
      have hused : s.life.state q ≠ .UNUSED := (of_decide_eq_true hover).1
      exact (h.mark hl hused).loops h.killing _ s.ticks
    · have hself : s.life.setProc q (s.life.proc q) = s.life := by
        simp [Lifecycle.State.setProc]
      rw [hself]
      exact h.loops h.killing _ s.ticks

end Invariant

theorem inv_init : Inv State.init where
  tree := treeInv_init
  clean _ _ := ⟨rfl, rfl, rfl, rfl, rfl⟩
  pid _ _ := rfl
  killing _ _ _ he := by cases he
  emptied _ _ := rfl

theorem run_inv {s : State} (h : RunWith KillsProcesses s) : Inv s := by
  refine Reachable.invariant Inv ?_ ?_ h
  · intro s hs
    rw [hs]
    exact inv_init
  · intro s s' hinv ⟨a, hs, hok⟩
    exact inv_step hinv hs hok

/-! ## §2. Free slots. -/

section Taken

variable {s s' : State} {a : Act}

theorem setProc_unused {b : Lifecycle.State} {k q : Slot} {r : Proc}
    (hr : b.state k = .UNUSED → r.state = .UNUSED) (hq : b.state q = .UNUSED) :
    (b.setProc k r).state q = .UNUSED := by
  rw [setProc_state]
  split
  · next he => exact hr (he ▸ hq)
  · exact hq

theorem marked_unused {r : Proc} (h : r.state = .UNUSED) : (marked r).state = .UNUSED := by
  unfold marked
  dsimp only
  rw [h]
  rfl

theorem killed_of_taken (h : Inv s) (hs : Step a s s') {q : Slot}
    (hq : s.life.state q = .UNUSED) (hq' : s'.life.state q ≠ .UNUSED) :
    (s'.life.proc q).killed = false := by
  -- the steps of the lifecycle
  have hlife : ∀ life, Lifecycle.Step s.life life → life.state q ≠ .UNUSED →
      (life.proc q).killed = false := by
    intro life hstep hne
    rw [← Bool.not_eq_true]
    intro hk
    rcases killed_of_step h.tree hstep hk with hk | rfl
    · rw [(h.clean q hq).killed] at hk
      cases hk
    · exact hne (setProc_unused marked_unused hq)
  cases hs with
  | plain hp => exact hlife _ hp.step hq'
  | userinit hstep | forkCopied hstep | forkRun hstep | exit hstep => exact hlife _ hstep hq'
  | deadfork | setkilled => exact absurd (setProc_unused (by exact id) hq) hq'
  | killNext =>
    refine absurd (setProc_unused ?_ hq) hq'
    intro hu
    unfold killIter
    split
    · exact marked_unused hu
    · exact hu
  | dropNext =>
    refine absurd (setProc_unused ?_ hq) hq'
    intro hu
    unfold dropDead
    split
    · exact marked_unused hu
    · exact hu
  | files | close | iput | kill | killNone | tick | dropDone => exact absurd hq hq'

theorem kill_target (h : Inv s) {p q : Slot} {pid : UInt32} {i : Nat}
    (hk : s.killing p = some (pid, i)) (hs : Step (.killNext p) s s')
    (hq : s'.life.proc q ≠ s.life.proc q) :
    s.life.state q ≠ .UNUSED ∧ (s.life.proc q).pid = pid := by
  cases hs with
  | killNone => exact absurd rfl hq
  | @killNext _ _ k pid' hr hk' hl =>
    rw [hk] at hk'
    cases hk'
    have hqk : q = k := by
      by_contra hne
      exact hq (update_of_ne hne _ _)
    subst hqk
    have hpid : (s.life.proc q).pid = pid := by
      by_contra hne
      refine hq ?_
      show update s.life.proc q (killIter (s.life.proc q) pid q).1 q = _
      rw [update_self]
      unfold killIter
      rw [if_neg hne]
    exact ⟨fun hu => h.killing p pid q hk (hpid ▸ h.pid q hu), hpid⟩

end Taken

/-- **Free slots are clean.** In every run in which kill is not called with pid 0: an UNUSED slot is
not marked, and has no channel, parent, status or files; a new process is not marked; and kill marks
only a process that has the pid. -/
theorem free_slots_clean {s : State} (h : RunWith KillsProcesses s) :
    (∀ q, s.life.state q = .UNUSED → Clean (s.life.proc q) (s.files q)) ∧
    (∀ a s' q, Step a s s' → s.life.state q = .UNUSED → s'.life.state q ≠ .UNUSED →
      (s'.life.proc q).killed = false) ∧
    ∀ p pid i s' q, s.killing p = some (pid, i) → Step (.killNext p) s s' →
      s'.life.proc q ≠ s.life.proc q → s.life.state q ≠ .UNUSED ∧ (s.life.proc q).pid = pid := by
  have hinv := run_inv h
  refine ⟨hinv.clean, fun a s' q hs => killed_of_taken hinv hs, fun p pid i s' q hk hs => ?_⟩
  exact kill_target hinv hk hs

/-! ## §3. kill(0). -/

def AnyAct (_ : State) (_ : Act) : Prop := True

def booted : State :=
  { State.init with
    life := (Lifecycle.State.init.userinit 0).dispatch 0
    files := update State.init.files 0 { State.init.files 0 with cwd := some 1 } }

theorem run_booted {ok : State → Act → Prop} (huserinit : ∀ s, ok s .userinit)
    (hplain : ∀ s, ok s .plain) : RunWith ok booted := by
  have h0 : RunWith ok State.init := .start rfl
  have h1 := h0.next ⟨_, @Step.userinit State.init _ 0 1
    (.userinit rfl rfl fun j hj => absurd hj (Fin.not_lt_zero j)) rfl rfl, huserinit _⟩
  refine h1.next ⟨_, .plain ⟨@Lifecycle.Step.dispatch _ 0 rfl rfl, ?_, rfl, ?_, ?_⟩, hplain _⟩
  · decide +kernel
  · decide +kernel
  · decide +kernel

/-- It forks a child into slot 1. -/
theorem free_slots_clean_booted : ∃ s s', RunWith KillsProcesses s ∧ Step .plain s s' ∧
    s.life.state 1 = .UNUSED ∧ s'.life.state 1 = .USED ∧ (s'.life.proc 1).killed = false ∧
    Clean (s.life.proc 1) (s.files 1) := by
  have h0 : RunWith KillsProcesses booted := run_booted (fun _ => trivial) (fun _ => trivial)
  have h1 := h0.next ⟨_, .plain ⟨@Lifecycle.Step.move _ 0 _ _ rfl rfl .fork, by decide +kernel, rfl,
    by decide +kernel, by decide +kernel⟩, trivial⟩
  have h2 := h1.next ⟨_, .plain ⟨@Lifecycle.Step.move _ 0 _ _ rfl rfl
    (@Lifecycle.Move.forkSkip _ _ 0 rfl (by decide)), by decide +kernel, rfl, by decide +kernel,
    by decide +kernel⟩, trivial⟩
  have hclean := (free_slots_clean h2).1
  refine ⟨_, _, h2, .plain ⟨@Lifecycle.Step.forkAlloc _ 0 1 rfl rfl rfl rfl, ?_, rfl, ?_, ?_⟩, rfl,
    rfl, rfl, hclean 1 rfl⟩
  · decide +kernel
  · decide +kernel
  · decide +kernel

/-- The first process calls kill(0): the loop stops at slot 1, which is free. -/
theorem free_slot_killed : ∃ s s', RunWith AnyAct s ∧ Step .plain s s' ∧
    s.life.state 1 = .UNUSED ∧ (s.life.proc 1).killed = true ∧ s'.life.state 1 = .USED ∧
    (s'.life.proc 1).killed = true := by
  have h0 : RunWith AnyAct booted := run_booted (fun _ => trivial) (fun _ => trivial)
  have h1 := h0.next ⟨_, @Step.kill booted 0 0 rfl rfl rfl, trivial⟩
  have h2 := h1.next ⟨_, @Step.killNext _ 0 0 0 rfl rfl rfl, trivial⟩
  have h3 := h2.next ⟨_, @Step.killNext _ 0 1 0 rfl rfl rfl, trivial⟩
  have h4 := h3.next ⟨_, .plain ⟨@Lifecycle.Step.move _ 0 _ _ rfl rfl .fork, by decide +kernel, rfl,
    by decide +kernel, by decide +kernel⟩, trivial⟩
  have h5 := h4.next ⟨_, .plain ⟨@Lifecycle.Step.move _ 0 _ _ rfl rfl
    (@Lifecycle.Move.forkSkip _ _ 0 rfl (by decide)), by decide +kernel, rfl, by decide +kernel,
    by decide +kernel⟩, trivial⟩
  refine ⟨_, _, h5, .plain ⟨@Lifecycle.Step.forkAlloc _ 0 1 rfl rfl rfl rfl, ?_, rfl, ?_, ?_⟩, rfl,
    rfl, rfl, rfl⟩
  · decide +kernel
  · decide +kernel
  · decide +kernel

end Xv6.Slots
