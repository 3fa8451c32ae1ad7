/-
  Xv6.Locks.Interrupts — push_off, pop_off and the switches between kernel threads.

  A step is one part of a call of spinlock.c, one change of SIE or one `swtch`, on one CPU.
  Processes are numbered as they are created.  The ghost field `enabled` is the SIE that a
  process has set for itself in the kernel; in a handler it is false until the `sret`.
-/
import Xv6.Lib.Run

namespace Xv6.Interrupts

open Lib Function List Option

/-! ## §1. The code. -/

structure Cpu where
  sie : Bool
  noff : Nat
  intena : Bool

def Cpu.pushOff (k : Cpu) : Cpu :=
  { sie := false, noff := k.noff + 1, intena := if k.noff = 0 then k.sie else k.intena }

def Cpu.popped (k : Cpu) : Cpu :=
  { k with noff := k.noff - 1, sie := k.noff - 1 = 0 ∧ k.intena }

/-- `none` for a panic. -/
def Cpu.popOff (k : Cpu) : Option Cpu := if k.sie ∨ k.noff < 1 then none else some k.popped

/-- Where a process is in the kernel: about to start, on a CPU, or in `sched` with its local
variable `intena`. -/
inductive Kstack (n : Nat) where
  | forkret
  | running (c : Fin n)
  | sched (intena : Bool)

structure State (n : Nat) (L : Type) where
  cpu : Fin n → Cpu
  /-- A push_off for each lock with this `cpu`, and those for no lock. -/
  held : Fin n → List (Option L)
  proc : Fin n → Option Nat
  kstack : Nat → Kstack n
  enabled : Nat → Bool

inductive Act (n : Nat) (L : Type) where
  | pushOff (c : Fin n)
  /-- `acquire`, when its loop ends. -/
  | take (c : Fin n) (l : L)
  /-- `release`, up to pop_off. -/
  | drop (c : Fin n) (l : L)
  | popOff (c : Fin n)
  /-- intr_on, intr_off, or the `sret` of a handler. -/
  | intr (c : Fin n) (b : Bool)
  | trap (c : Fin n)
  | sched (c : Fin n)
  /-- The `swtch` of the scheduler. -/
  | swtch (c : Fin n) (p : Nat)

variable {n : Nat} {L : Type}

def State.set (s : State n L) (c : Fin n) (k : Cpu) (held : List (Option L)) : State n L :=
  { s with cpu := update s.cpu c k, held := update s.held c held }

def State.setSie (s : State n L) (c : Fin n) (b : Bool) : State n L :=
  { s.set c { s.cpu c with sie := b } (s.held c) with
    enabled := (s.proc c).elim s.enabled fun p => update s.enabled p b }

/-- `c` goes on with another flow, and with `intena` as given. -/
def State.switch (s : State n L) (c : Fin n) (proc : Option Nat) (intena : Bool) (p : Nat)
    (st : Kstack n) : State n L :=
  { s.set c { s.cpu c with intena := intena } (s.held c) with
    proc := update s.proc c proc, kstack := update s.kstack p st }

/-- The source calls `intr_on` and `intr_off` outside of push_off only, and its scheduler switches
to a RUNNABLE process with that process's lock and no other. -/
def next [DecidableEq L] (plock : Nat → L) (s : State n L) : Act n L → Option (State n L)
  | .pushOff c => some (s.set c (s.cpu c).pushOff (none :: s.held c))
  | .take c l =>
    if none ∈ s.held c ∧ ∀ d, some l ∉ s.held d then
      some (s.set c (s.cpu c) (some l :: (s.held c).erase none))
    else none
  | .drop c l =>
    if some l ∈ s.held c then some (s.set c (s.cpu c) (none :: (s.held c).erase (some l)))
    else none
  | .popOff c =>
    if none ∈ s.held c then (s.cpu c).popOff.map fun k => s.set c k ((s.held c).erase none)
    else none
  | .intr c b => if (s.cpu c).noff = 0 then some (s.setSie c b) else none
  | .trap c => if (s.cpu c).sie then some (s.setSie c false) else none
  | .sched c =>
    (s.proc c).bind fun p =>
      let intena := (s.cpu c).intena
      if some (plock p) ∈ s.held c ∧ (s.cpu c).noff = 1 ∧ (s.cpu c).sie = false then
        some (s.switch c none intena p (.sched intena))
      else none
  | .swtch c p =>
    if s.proc c = none ∧ (s.cpu c).noff = 1 ∧ some (plock p) ∈ s.held c then
      match s.kstack p with
      | .running _ => none
      | .forkret =>
        some { s.switch c (some p) (s.cpu c).intena p (.running c) with
               enabled := update s.enabled p (s.cpu c).intena }
      | .sched intena => some (s.switch c (some p) intena p (.running c))
    else none

/-- Interrupts are off while `main` sets up a CPU. -/
def boot : State n L where
  cpu := fun _ => ⟨false, 0, false⟩
  held := fun _ => []
  proc := fun _ => none
  kstack := fun _ => .forkret
  enabled := fun _ => false

def Run [DecidableEq L] (plock : Nat → L) : State n L → Prop :=
  Reachable (· = boot) fun s s' => ∃ a, next plock s a = some s'

/-! ## §2. One CPU. -/

/-- SIE is as its flow has set it, or push_off remembers how. -/
def Cpu.Shows (k : Cpu) (b : Bool) : Prop :=
  if k.noff = 0 then k.sie = b else k.sie = false ∧ k.intena = b

variable {k : Cpu} {b : Bool}

theorem Cpu.Shows.pushOff (h : k.Shows b) : k.pushOff.Shows b := by
  unfold Shows at h
  refine ⟨rfl, ?_⟩
  show (if k.noff = 0 then k.sie else k.intena) = b
  split at h
  · next hk => rw [if_pos hk, h]
  · next hk => rw [if_neg hk, h.2]

theorem Cpu.popOff_eq (hsie : k.sie = false) (hk : k.noff ≠ 0) : k.popOff = some k.popped := by
  simp [popOff, hsie, hk]

theorem Cpu.Shows.popped (h : k.Shows b) (hk : k.noff ≠ 0) : k.popped.Shows b := by
  rw [Shows, if_neg hk] at h
  unfold Shows
  split
  · next hz => simpa [Cpu.popped, show k.noff - 1 = 0 from hz] using h.2
  · next hz => exact ⟨decide_eq_false fun h => hz h.1, h.2⟩

/-! ## §3. All CPUs. -/

structure Inv (s : State n L) : Prop where
  masked : ∀ c, (s.cpu c).noff ≠ 0 → (s.cpu c).sie = false
  count : ∀ c, (s.cpu c).noff = (s.held c).length
  running : ∀ c p, s.proc c = some p → s.kstack p = .running c
  shows : ∀ c p, s.proc c = some p → (s.cpu c).Shows (s.enabled p)
  saved : ∀ p b, s.kstack p = .sched b → s.enabled p = b

section Steps

variable {s s' : State n L} {c : Fin n} {p : Nat} {b : Bool} {a : Act n L}

theorem Inv.set (h : Inv s) {k : Cpu} {held : List (Option L)}
    (hk : ∀ b, (s.cpu c).Shows b → k.Shows b) (hmask : k.noff ≠ 0 → k.sie = false)
    (hlen : k.noff = held.length) : Inv (s.set c k held) := by
  obtain ⟨hmasked, hcount, hrunning, hshows, hsaved⟩ := h
  constructor <;> simp only [State.set] <;> grind [update_apply]

/-- No other CPU runs the process whose `enabled` changes. -/
theorem Inv.setSie (h : Inv s) (hz : (s.cpu c).noff = 0) : Inv (s.setSie c b) := by
  obtain ⟨hmasked, hcount, hrunning, hshows, hsaved⟩ := h
  cases hp : s.proc c <;> constructor <;>
    simp only [State.setSie, State.set, hp, Option.elim] <;> grind [Cpu.Shows, update_apply]

/-- The process leaves with the `intena` that stands for its `enabled`. -/
theorem Inv.sched (h : Inv s) (hp : s.proc c = some p) (hone : (s.cpu c).noff = 1) :
    Inv (s.switch c none (s.cpu c).intena p (.sched (s.cpu c).intena)) := by
  obtain ⟨hmasked, hcount, hrunning, hshows, hsaved⟩ := h
  constructor <;> simp only [State.switch, State.set] <;> grind [Cpu.Shows, update_apply]

theorem Inv.swtch (h : Inv s) {e : Nat → Bool} (hone : (s.cpu c).noff = 1)
    (hst : ∀ d, s.kstack p ≠ .running d) (he : ∀ q ≠ p, e q = s.enabled q) (hb : e p = b) :
    Inv { s.switch c (some p) b p (.running c) with enabled := e } := by
  obtain ⟨hmasked, hcount, hrunning, hshows, hsaved⟩ := h
  constructor <;> simp only [State.switch, State.set] <;> grind [Cpu.Shows, update_apply]

theorem Inv.pos (h : Inv s) {o : Option L} (ho : o ∈ s.held c) : (s.cpu c).noff ≠ 0 := by
  rw [h.count c]
  exact (length_pos_of_mem ho).ne'

variable [DecidableEq L] {plock : Nat → L}

theorem step_inv (h : Inv s) (hs : next plock s a = some s') : Inv s' := by
  cases a with
  | pushOff c =>
    cases hs
    refine h.set (fun b hb => hb.pushOff) (fun _ => rfl) ?_
    rw [length_cons, ← h.count c]
    rfl
  | take c l =>
    obtain ⟨⟨hmem, hfree⟩, ⟨⟩⟩ := ite_none_right_eq_some.mp hs
    refine h.set (fun b hb => hb) (h.masked c) ?_
    rw [h.count c, length_cons, length_erase_add_one hmem]
  | drop c l =>
    obtain ⟨hmem, ⟨⟩⟩ := ite_none_right_eq_some.mp hs
    refine h.set (fun b hb => hb) (h.masked c) ?_
    rw [h.count c, length_cons, length_erase_add_one hmem]
  | popOff c =>
    obtain ⟨hmem, hs⟩ := ite_none_right_eq_some.mp hs
    have hpos := h.pos hmem
    rw [Cpu.popOff_eq (h.masked c hpos) hpos] at hs
    cases hs
    refine h.set (fun b hb => hb.popped hpos) (fun hne => decide_eq_false fun hz => hne hz.1) ?_
    rw [length_erase_of_mem hmem, ← h.count c]
    rfl
  | intr c b =>
    obtain ⟨hz, ⟨⟩⟩ := ite_none_right_eq_some.mp hs
    exact h.setSie hz
  | trap c =>
    obtain ⟨hsie, ⟨⟩⟩ := ite_none_right_eq_some.mp hs
    refine h.setSie (by_contra fun hne => ?_)
    rw [h.masked c hne] at hsie
    cases hsie
  | sched c =>
    obtain ⟨p, hp, hs⟩ := bind_eq_some_iff.mp hs
    obtain ⟨⟨_, hone, _⟩, ⟨⟩⟩ := ite_none_right_eq_some.mp hs
    exact h.sched hp hone
  | swtch c p =>
    obtain ⟨⟨_, hone, _⟩, hs⟩ := ite_none_right_eq_some.mp hs
    split at hs
    · cases hs
    · next hst =>
      cases hs
      refine h.swtch hone (fun d => ?_) (fun q hq => update_of_ne hq _ _) (update_self ..)
      rw [hst]
      exact nofun
    · next hst =>
      cases hs
      refine h.swtch hone (fun d => ?_) (fun _ _ => rfl) (h.saved p _ hst)
      rw [hst]
      exact nofun

theorem run_inv (h : Run plock s) : Inv s := by
  refine Reachable.invariant Inv ?_ ?_ h
  · rintro s rfl
    exact ⟨fun _ _ => rfl, fun _ => rfl, nofun, nofun, nofun⟩
  · rintro s s' hinv ⟨a, hs⟩
    exact step_inv hinv hs

end Steps

/-- A CPU takes an interrupt only while it holds no lock, no pop_off panics, and outside of push_off
a process has the SIE that it has set itself, also after it has moved to another CPU. -/
structure Disciplined (s : State n L) : Prop where
  masked : ∀ c, s.held c ≠ [] → (s.cpu c).sie = false
  popOff : ∀ c, none ∈ s.held c → (s.cpu c).popOff ≠ none
  restored : ∀ c p, s.proc c = some p → s.held c = [] → (s.cpu c).sie = s.enabled p

/-- **Interrupts are off wherever a lock is held, and on again as they were.** -/
theorem interrupts_disciplined [DecidableEq L] (plock : Nat → L) (s : State n L)
    (h : Run plock s) : Disciplined s := by
  have hinv := run_inv h
  refine ⟨fun c hne => ?_, fun c hmem => ?_, fun c p hp hnil => ?_⟩
  · exact hinv.masked c (hinv.pos (exists_mem_of_ne_nil _ hne).choose_spec)
  · have hpos := hinv.pos hmem
    rw [Cpu.popOff_eq (hinv.masked c hpos) hpos]
    exact nofun
  · have hshows := hinv.shows c p hp
    rwa [Cpu.Shows, if_pos (by rw [hinv.count c, hnil]; rfl)] at hshows

/-- A handler yields on CPU 0 and goes on on CPU 1, whose scheduler has interrupts on. -/
def yieldInTrap : List (Act 2 Nat) :=
  [.intr 0 true, .pushOff 0, .take 0 0, .swtch 0 0, .drop 0 0, .popOff 0, .trap 0, .pushOff 0,
    .take 0 0, .sched 0, .drop 0 0, .popOff 0, .intr 1 true, .pushOff 1, .take 1 0, .swtch 1 0,
    .drop 1 0, .popOff 1]

theorem interrupts_disciplined_yieldInTrap : ∃ s : State 2 Nat, Run id s ∧ s.proc 1 = some 0 ∧
    s.held 1 = [] ∧ (s.cpu 1).sie = false ∧ Disciplined s := by
  have hacts : (runActs (next id) boot yieldInTrap).any fun s =>
      s.proc 1 = some 0 ∧ s.held 1 = [] ∧ (s.cpu 1).sie = false := by
    decide
  obtain ⟨s, hs, htest⟩ := any_eq_true _ _ |>.mp hacts
  have hrun : Run id s := Reachable.runActs (fun _ a _ h => ⟨a, h⟩) (.start rfl) hs
  obtain ⟨hproc, hheld, hsie⟩ := of_decide_eq_true htest
  exact ⟨s, hrun, hproc, hheld, hsie, interrupts_disciplined id s hrun⟩

end Xv6.Interrupts
