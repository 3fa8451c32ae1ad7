/-
  Xv6.Proc.Slots — the slots of the process table with their open files.

  The lifecycle joined with the open files of the processes and with everything that marks a
  process as killed.
-/
import Xv6.Proc.ProcessTree

namespace Xv6.Slots

open Lib Function Lifecycle.State

/-! ## §1. The state. -/

abbrev NOFILE : Nat := 16

structure Files where
  ofile : Fin NOFILE → Option Nat
  cwd : Option Nat
  deriving DecidableEq

def noFiles : Files := { ofile := fun _ => none, cwd := none }

structure State where
  life : Lifecycle.State
  files : Slot → Files
  ticks : UInt32
  /-- `np` after `fork_core` has returned to deadfork. -/
  np : Slot → Option Slot
  /-- The argument and the loop variable of a process inside kill. -/
  killing : Slot → Option (UInt32 × Nat)
  /-- The same for drop_dead_processes in the clock interrupt. -/
  dropping : Option (UInt32 × Nat)

/-- The loop over `ofile` in `fork_core`, and `idup(p->cwd)`. -/
def dupFiles (p np : Files) : Files :=
  { ofile := fun i =>
      match p.ofile i with
      | some f => some f
      -- np->ofile[i] keeps what it has
      | none => np.ofile i
    cwd := p.cwd }

/-! ## §2. Marking a process. -/

def setkilled (r : Proc) : Proc := { r with killed := true }

def marked (r : Proc) : Proc :=
  { r with
    killed := true
    state := if r.state = .SLEEPING then .RUNNABLE else r.state }

def overdue (r : Proc) (deadline : UInt32) : Bool :=
  r.state ≠ .UNUSED ∧ r.state ≠ .ZOMBIE ∧ r.deadline ≠ -1 ∧ r.deadline ≤ deadline

def dropDead (r : Proc) (deadline : UInt32) : Proc := if overdue r deadline then marked r else r

def killIter (r : Proc) (pid : UInt32) (i : Nat) : Proc × Option (UInt32 × Nat) :=
  if r.pid = pid then (marked r, none) else (r, some (pid, i + 1))

/-! ## §3. Steps. -/

def quiet : Lifecycle.Path → Lifecycle.Path → Bool
  | .forkCopy _, .forkLink _ => false
  | .forkRun _, .user => false
  | .exit _, .reparent _ _ => false
  | _, _ => true

structure Plain (s : State) (life : Lifecycle.State) : Prop where
  step : Lifecycle.Step s.life life
  unmarked : ∀ q, (life.proc q).killed = true → (s.life.proc q).killed = true
  booted : life.initproc = s.life.initproc
  quiet : ∀ p, quiet (s.life.path p) (life.path p) = true
  busy : ∀ p, s.killing p ≠ none → life.path p = s.life.path p

inductive Act where
  | plain
  | userinit
  | forkCopied
  | forkRun
  | deadfork (p : Slot) (ttl : UInt32)
  | files (p : Slot)
  | close (p : Slot) (fd : Fin NOFILE)
  | iput (p : Slot)
  /-- exit has closed its files and takes wait_lock. -/
  | exit (p : Slot)
  | kill (p : Slot) (pid : UInt32)
  | killNext (p : Slot)
  | setkilled (p : Slot)
  | tick
  | dropNext
  deriving DecidableEq

section Steps

open Lifecycle (Path)

inductive Step : Act → State → State → Prop
  | plain {s : State} {life : Lifecycle.State} (h : Plain s life) :
    Step .plain s { s with life := life }
  | userinit {s : State} {life : Lifecycle.State} {p : Slot} {root : Nat}
    (h : Lifecycle.Step s.life life) (hi : s.life.initproc = none)
    (hi' : life.initproc = some p) :
    Step .userinit s
      { s with
        life := life
        files := update s.files p { s.files p with cwd := some root } }
  | forkCopied {s : State} {life : Lifecycle.State} {p np : Slot} (h : Lifecycle.Step s.life life)
    (hp : s.life.path p = .forkCopy np) (hp' : life.path p = .forkLink np) :
    Step .forkCopied s
      { s with
        life := life
        files := update s.files np (dupFiles (s.files p) (s.files np)) }
  | forkRun {s : State} {life : Lifecycle.State} {p np : Slot} (h : Lifecycle.Step s.life life)
    (hp : s.life.path p = .forkRun np) (hp' : life.path p = .user) :
    Step .forkRun s { s with life := life, np := update s.np p (some np) }
  /-- No lock is held: by now the slot may be in other hands. -/
  | deadfork {s : State} {p np : Slot} {ttl : UInt32} (hr : s.life.state p = .RUNNING)
    (hp : s.life.path p = .user) (hnp : s.np p = some np) :
    Step (.deadfork p ttl) s
      { s with
        life := s.life.setProc np { s.life.proc np with deadline := s.ticks + ttl }
        np := update s.np p none }
  | files {s : State} {p : Slot} {files : Files} (hr : s.life.state p = .RUNNING)
    (hp : s.life.path p = .user) :
    Step (.files p) s { s with files := update s.files p files }
  | close {s : State} {p : Slot} {fd : Fin NOFILE} {status : Int}
    (hr : s.life.state p = .RUNNING) (hp : s.life.path p = .exit status) :
    Step (.close p fd) s
      { s with
        files := update s.files p
          { s.files p with ofile := update (s.files p).ofile fd none } }
  | iput {s : State} {p : Slot} {status : Int} (hr : s.life.state p = .RUNNING)
    (hp : s.life.path p = .exit status) (hclosed : ∀ fd, (s.files p).ofile fd = none) :
    Step (.iput p) s
      { s with files := update s.files p { s.files p with cwd := none } }
  | exit {s : State} {life : Lifecycle.State} {p : Slot} {status : Int}
    (h : Lifecycle.Step s.life life) (hp : s.life.path p = .exit status)
    (hp' : life.path p = .reparent status 0) (hclosed : s.files p = noFiles) :
    Step (.exit p) s { s with life := life }
  | kill {s : State} {p : Slot} {pid : UInt32} (hr : s.life.state p = .RUNNING)
    (hp : s.life.path p = .user) (hk : s.killing p = none) :
    Step (.kill p pid) s { s with killing := update s.killing p (some (pid, 0)) }
  | killNext {s : State} {p q : Slot} {pid : UInt32} (hr : s.life.state p = .RUNNING)
    (hk : s.killing p = some (pid, (q : Nat))) (hl : s.life.lock q = none) :
    Step (.killNext p) s
      { s with
        life := s.life.setProc q (killIter (s.life.proc q) pid q).1
        killing := update s.killing p (killIter (s.life.proc q) pid q).2 }
  /-- Nobody has the pid: -1. -/
  | killNone {s : State} {p : Slot} {pid : UInt32} (hr : s.life.state p = .RUNNING)
    (hk : s.killing p = some (pid, NPROC)) :
    Step (.killNext p) s { s with killing := update s.killing p none }
  /-- A fault in user mode. -/
  | setkilled {s : State} {p : Slot} (hr : s.life.state p = .RUNNING)
    (hp : s.life.path p = .user) (hl : s.life.lock p = none) :
    Step (.setkilled p) s { s with life := s.life.setProc p (setkilled (s.life.proc p)) }
  | tick {s : State} (hd : s.dropping = none) :
    Step .tick s { s with ticks := s.ticks + 1, dropping := some (s.ticks + 1, 0) }
  | dropNext {s : State} {q : Slot} {deadline : UInt32} (hd : s.dropping = some (deadline, (q : Nat)))
    (hl : s.life.lock q = none) :
    Step .dropNext s
      { s with
        life := s.life.setProc q (dropDead (s.life.proc q) deadline)
        dropping := some (deadline, q + 1) }
  | dropDone {s : State} {deadline : UInt32} (hd : s.dropping = some (deadline, NPROC)) :
    Step .dropNext s { s with dropping := none }

end Steps

def State.init : State :=
  { life := Lifecycle.State.init
    files := fun _ => noFiles
    ticks := 0
    np := fun _ => none
    killing := fun _ => none
    dropping := none }

def RunWith (ok : State → Act → Prop) : State → Prop :=
  Reachable (· = State.init) fun s s' => ∃ a, Step a s s' ∧ ok s a

/-! ## §4. What a step of the lifecycle does to a record. -/

/-- A free slot as `allocproc` relies on it. -/
structure Clean (r : Proc) (files : Files) : Prop where
  killed : r.killed = false
  chan : r.chan = none
  parent : r.parent = none
  xstate : r.xstate = 0
  files : files = noFiles

theorem clean_freed (r : Proc) : Clean r.freed noFiles := ⟨rfl, rfl, rfl, rfl, rfl⟩

section Records

open Lifecycle (TreeInv)

variable {b b' : Lifecycle.State}

inductive RecordChange (b b' : Lifecycle.State) (q : Slot) : Prop
  | same (h : b'.proc q = b.proc q)
  | killed (h : b' = b.killSlot q)
  | freed (h : b'.proc q = (b.proc q).freed)
  | used (h : b'.state q ≠ .UNUSED) (hk : (b'.proc q).killed = (b.proc q).killed)

theorem recordChange_update {k : Slot} {r : Proc} (hp : b'.proc = update b.proc k r)
    (hr : r.state ≠ .UNUSED) (hk : r.killed = (b.proc k).killed) (q : Slot) :
    RecordChange b b' q := by
  have hproc : ∀ i, b'.proc i = if i = k then r else b.proc i := by
    intro i
    rw [hp]
    exact update_apply _ _ _ _
  by_cases hq : q = k
  · subst hq
    refine .used ?_ ?_
    · show (b'.proc q).state ≠ .UNUSED
      rw [hproc, if_pos rfl]
      exact hr
    · rw [hproc, if_pos rfl]
      exact hk
  · refine .same ?_
    rw [hproc, if_neg hq]

theorem recordChange_freed {k : Slot} (hp : b'.proc = update b.proc k (b.proc k).freed)
    (q : Slot) : RecordChange b b' q := by
  by_cases hq : q = k
  · subst hq
    exact .freed (by rw [hp, update_self])
  · exact .same (by rw [hp, update_of_ne hq])

theorem recordChange (ht : TreeInv b) (h : Lifecycle.Step b b') (q : Slot) :
    RecordChange b b' q := by
  cases h with
  | userinit => exact recordChange_update (update_idem _ _ _) (by simp) (by rfl) q
  | dispatch | yield | forkRun | zombie | waitSched =>
    exact recordChange_update rfl (by simp) (by rfl) q
  | @kill k hl =>
    by_cases hq : q = k
    · subst hq
      exact .killed rfl
    · refine .same ?_
      show update b.proc k _ q = b.proc q
      exact update_of_ne hq _ _
  | forkAlloc => exact recordChange_update rfl (by simp [Proc.allocated]) (by rfl) q
  | forkFail | waitReap => exact recordChange_freed rfl q
  | @forkCopied p np hr hp | @forkLink p np hr hp hw =>
    have hused := (ht.forked p np (by rw [hp]; rfl)).1
    refine recordChange_update rfl ?_ (by rfl) q
    show b.state np ≠ .UNUSED
    rw [hused]
    decide
  | @reparent p i status hr hp hc => 
    exact recordChange_update rfl (by exact ht.present i p hc) (by rfl) q
  | @wakeup p k chan a c hr hp hw hk hl =>
    unfold Lifecycle.State.wakeupSlot
    split
    · exact recordChange_update rfl (by simp) (by rfl) q
    · exact .same rfl
  | move | enter | wakeupSelf | exitSched | waitFails | waitSleep => exact .same rfl

theorem killed_of_step (ht : TreeInv b) (h : Lifecycle.Step b b') {q : Slot}
    (hq : (b'.proc q).killed = true) : (b.proc q).killed = true ∨ b' = b.killSlot q := by
  cases recordChange ht h q with
  | same he =>
    rw [he] at hq
    exact .inl hq
  | killed he => exact .inr he
  | freed he =>
    rw [he] at hq
    cases hq
  | used _ hk =>
    rw [hk] at hq
    exact .inl hq

end Records

/-! ## §5. Slots whose files are closed. -/

section Emptied

open Lifecycle (TreeInv Flow Passive Change)

variable {b b' : Lifecycle.State}

/-- exit holds wait_lock: the files are closed. -/
def closed : Lifecycle.Path → Bool
  | .reparent _ _ | .reparentWake _ _ _ | .exitWake _ _ => true
  | _ => false

/-- The slots without open files: free, exited or about to be, or of a fork that may still fail. -/
inductive Emptied (b : Lifecycle.State) (q : Slot) : Prop
  | unused (h : b.state q = .UNUSED)
  | zombie (h : b.state q = .ZOMBIE)
  | exiting (h : closed (b.path q) = true)
  | forking (p : Slot) (h : b.path p = .forkCopy q)

section

variable (h : Lifecycle.Step b b')

include h

theorem mover_of_step : ∃ p, ∀ q ≠ p, b'.path q = b.path q ∨
    (b.state q = .UNUSED ∧ b'.path q = .user) ∨ b'.path q = .dead := by
  have hgoto : ∀ (t : Lifecycle.State) (p : Slot) (path : Lifecycle.Path), t.path = b.path →
      ∃ p', ∀ q ≠ p', (t.goto p path).path q = b.path q ∨
        (b.state q = .UNUSED ∧ (t.goto p path).path q = .user) ∨ (t.goto p path).path q = .dead := by
    intro t p path ht
    refine ⟨p, fun q hq => .inl ?_⟩
    rw [goto_path, if_neg hq, ht]
  cases h with
  | @userinit p hi hu hfirst =>
    refine ⟨p, fun q hq => .inl ?_⟩
    rw [userinit_path, if_neg hq]
  | @forkAlloc p np hr hp hl hu =>
    refine ⟨p, fun q hq => ?_⟩
    rw [goto_path, if_neg hq, setLock_path,
      allocproc_path]
    split
    · next he => exact .inr (.inl ⟨he ▸ hu, rfl⟩)
    · exact .inl rfl
  | @forkFail p np hr hp =>
    refine ⟨p, fun q hq => ?_⟩
    rw [goto_path, if_neg hq, setLock_path,
      freeproc_path]
    split
    · exact .inr (.inr rfl)
    · exact .inl rfl
  | @waitReap p c addr havekids hr hp hc hl hz =>
    refine ⟨p, fun q hq => ?_⟩
    rw [reap_path, if_neg hq]
    split
    · exact .inr (.inr rfl)
    · exact .inl rfl
  | yield | kill => exact ⟨0, fun q _ => .inl rfl⟩
  | wakeup => exact hgoto _ _ _ (wakeupSlot_path _ _ _)
  | @zombie p status hr hp hl =>
    refine ⟨p, fun q hq => .inl ?_⟩
    show ((_ : Lifecycle.State).goto p _).path q = _
    rw [goto_path, if_neg hq]
    rfl
  | dispatch | move | forkCopied | forkLink | forkRun | enter | reparent | wakeupSelf | exitSched
  | waitFails | waitSleep | waitSched => exact hgoto _ _ _ rfl

theorem not_entering {p : Slot} (hne : b'.path p ≠ b.path p)
    (hdead : b'.path p ≠ .dead) (hused : b.state p ≠ .UNUSED) {q : Slot} (hq : q ≠ p) (status : Int)
    (hexit : b.path q = .exit status) : b'.path q ≠ .reparent status 0 := by
  obtain ⟨m, hm⟩ := mover_of_step h
  have hpm : p = m := by
    by_contra hpm
    rcases hm p hpm with h | ⟨hu, _⟩ | h
    · exact hne h
    · exact hused hu
    · exact hdead h
  intro he
  rcases hm q (hpm ▸ hq) with h | ⟨_, h⟩ | h
  · rw [he, hexit] at h
    cases h
  · rw [he] at h
    cases h
  · rw [he] at h
    cases h

theorem emptied_of_step {q : Slot}
    (henter : ∀ status, b.path q = .exit status → b'.path q ≠ .reparent status 0)
    (hq : Emptied b' q) : Emptied b q := by
  cases hq with
  | unused hu =>
    rcases h.state_cases q with he | hc
    · exact .unused (he ▸ hu)
    · rw [hu] at hc
      generalize hst : b.state q = st at hc
      cases hc with
      | @forkFail p _ hf => exact .forking p hf
      | reap => exact .zombie hst
  | zombie hz =>
    rcases h.state_cases q with he | hc
    · exact .zombie (he ▸ hz)
    · rw [hz] at hc
      generalize hst : b.state q = st at hc
      cases hc with
      | zombie hf => exact .exiting (by rw [hf]; rfl)
  | exiting hx =>
    rcases h.path_cases q with he | ⟨_, hf⟩ | hp
    · exact .exiting (he ▸ hx)
    · generalize hb : b'.path q = path at hf hx
      generalize ha : b.path q = path₀ at hf
      cases hf with
      | move hm => cases hm <;> first | exact .exiting (by rw [ha]; rfl) | cases hx
      | enter he hw =>
        cases he with
        | exit => exact absurd hb (henter _ ha)
        | wait => cases hx
      | reparent => exact .exiting (by rw [ha]; rfl)
      | wakeup hw => cases hw <;> exact .exiting (by rw [ha]; rfl)
      | _ => cases hx
    · generalize hb : b'.path q = path at hp hx
      generalize b.path q = path₀ at hp
      cases hp <;> cases hx
  | forking p hp =>
    rcases h.path_cases p with he | ⟨_, hf⟩ | hpass
    · exact .forking p (he ▸ hp)
    · rw [hp] at hf
      generalize ha : b.path p = path₀ at hf
      cases hf with
      | move hm => cases hm
      | forkAlloc hu => exact .unused hu
      | enter he => cases he
      | wakeup hw => cases hw
    · rw [hp] at hpass
      generalize b.path p = path₀ at hpass
      cases hpass

end

end Emptied

end Xv6.Slots
