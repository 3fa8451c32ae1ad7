/-
  Xv6.FileTable.Procs — the processes in every run.

  What a process knows about its own descriptors, about the child that it is
  making, and about entries of ftable that it has just allocated.
-/
import Xv6.FileTable.Holdings

namespace Xv6.FileTable

open Lib
open Fs (NFILE NOFILE NINODE)

/-! ## §1. Processes. -/

def Call.copied : Call → Nat
  | .forkFd _ i => i
  | .forkStore _ i _ => i
  | _ => 0

structure Procs (s : State) : Prop where
  fits : ∀ p, (s.proc p).Fits
  calm : ∀ p, (s.proc p).status ≠ .live → (s.proc p).ops = [] ∧ (s.proc p).call = .idle
  empty : ∀ p, (s.proc p).status = .unused ∨ (s.proc p).status = .zombie →
    ∀ fd, (s.proc p).ofile fd = none
  child : ChildrenUsed s
  later : ∀ p np, (s.proc p).call.child = some np →
    ∀ fd : Fin NOFILE, (s.proc p).call.copied ≤ fd.val → (s.proc np).ofile fd = none
  forks : ∀ p q np, (s.proc p).call.child = some np → (s.proc q).call.child = some np → p = q

section Procs

variable {s s' : State} {p np : Slot} {x x' y y' : Proc} {ops : List Op}

structure MayFork (s : State) (p : Slot) (call : Call) (np : Slot) : Prop where
  ne : np ≠ p
  used : (s.proc np).status = .used
  later : ∀ fd : Fin NOFILE, call.copied ≤ fd.val → (s.proc np).ofile fd = none
  alone : ∀ q, q ≠ p → (s.proc q).call.child ≠ some np

def SafeChild (s : State) (p : Slot) (x' : Proc) : Prop :=
  ∀ q, q ≠ p → (s.proc q).call.child = some p →
    x'.status = .used ∧ ∀ fd : Fin NOFILE, (s.proc q).call.copied ≤ fd.val → x'.ofile fd = none

/-- **One record changes.** -/
theorem Procs.update (h : Procs s) (hproc : s'.proc = Function.update s.proc p x')
    (hfits : x'.Fits) (hcalm : x'.status ≠ .live → x'.ops = [] ∧ x'.call = .idle)
    (hempty : x'.status = .unused ∨ x'.status = .zombie → ∀ fd, x'.ofile fd = none)
    (hsafe : SafeChild s p x') (hfork : ∀ np, x'.call.child = some np → MayFork s p x'.call np) :
    Procs s' := by
  have hself : s'.proc p = x' := by rw [hproc, Function.update_self]
  have hother : ∀ q, q ≠ p → s'.proc q = s.proc q := fun q hq => by
    rw [hproc, Function.update_of_ne hq]
  constructor
  · intro q
    by_cases hq : q = p
    · rw [hq, hself]
      exact hfits
    · rw [hother q hq]
      exact h.fits q
  · intro q
    by_cases hq : q = p
    · rw [hq, hself]
      exact hcalm
    · rw [hother q hq]
      exact h.calm q
  · intro q
    by_cases hq : q = p
    · rw [hq, hself]
      exact hempty
    · rw [hother q hq]
      exact h.empty q
  · intro q nq hc
    by_cases hq : q = p
    · rw [hq, hself] at hc
      rw [hother nq (hfork nq hc).ne]
      exact (hfork nq hc).used
    · rw [hother q hq] at hc
      by_cases hnq : nq = p
      · rw [hnq] at hc ⊢
        rw [hself]
        exact (hsafe q hq hc).1
      · rw [hother nq hnq]
        exact h.child q nq hc
  · intro q nq hc fd hfd
    by_cases hq : q = p
    · rw [hq, hself] at hc hfd
      rw [hother nq (hfork nq hc).ne]
      exact (hfork nq hc).later fd hfd
    · rw [hother q hq] at hc hfd
      by_cases hnq : nq = p
      · rw [hnq] at hc ⊢
        rw [hself]
        exact (hsafe q hq hc).2 fd hfd
      · rw [hother nq hnq]
        exact h.later q nq hc fd hfd
  · intro q r nq hcq hcr
    by_cases hq : q = p
    · by_cases hr : r = p
      · rw [hq, hr]
      · rw [hq, hself] at hcq
        rw [hother r hr] at hcr
        exact absurd hcr ((hfork nq hcq).alone r hr)
    · by_cases hr : r = p
      · rw [hr, hself] at hcr
        rw [hother q hq] at hcq
        exact absurd hcq ((hfork nq hcr).alone q hq)
      · rw [hother q hq] at hcq
        rw [hother r hr] at hcr
        exact h.forks q r nq hcq hcr

theorem Procs.safeChild (h : Procs s) (hp : (s.proc p).status ≠ .used) : SafeChild s p x' :=
  fun q _ hc => absurd (h.child q p hc) hp

theorem Procs.mayFork (h : Procs s) (hlive : (s.proc p).status = .live)
    (hc : (s.proc p).call.child = some np) {call : Call}
    (hle : (s.proc p).call.copied ≤ call.copied) : MayFork s p call np where
  ne := (h.child.ne hc hlive).symm
  used := h.child p np hc
  later fd hfd := h.later p np hc fd (Nat.le_trans hle hfd)
  alone q hq hcq := hq (h.forks q p np hcq hc)

theorem Procs.step (h : Procs s) (hr : Runs s p ops x)
    (hproc : s'.proc = Function.update s.proc p x') (hfits : x'.Fits) (hlive : x'.status = .live)
    (hchild : x'.call.child = none ∨
      x'.call.child = x.call.child ∧ x.call.copied ≤ x'.call.copied) : Procs s' := by
  obtain ⟨rfl, hlive', -⟩ := hr
  apply h.update hproc hfits
  · exact fun hne => absurd hlive hne
  · intro hor
    rw [hlive] at hor
    rcases hor with hor | hor <;> cases hor
  · apply h.safeChild
    rw [hlive']
    exact nofun
  · intro np hnp
    rcases hchild with hnone | ⟨hsame, hle⟩
    · rw [hnone] at hnp
      cases hnp
    · exact h.mayFork hlive' (hsame ▸ hnp) hle

theorem turn_child {call : Call} (h : Turn x ops call) : call.child = none ∨
    call.child = x.call.child ∧ x.call.copied ≤ call.copied := by
  cases h with
  | forkCopied hc => exact .inr ⟨by rw [hc]; rfl, by rw [hc]; exact Nat.le_refl 0⟩
  | forkSkip hc => exact .inr ⟨by rw [hc]; rfl, by rw [hc]; exact Nat.le_succ _⟩
  | _ => exact .inl rfl

theorem Procs.pop (h : Procs s) {op : Op} {rest : List Op} (hr : Runs s p (op :: rest) x)
    {ofile : Fin NOFILE → Option (Fin NFILE)}
    (hproc : s'.proc = Function.update s.proc p { x with ofile := ofile, ops := ops })
    (hofile : ∀ fd, x.ofile fd = none ∨ op = .clear fd → ofile fd = none)
    (hsub : ∀ fd, .clear fd ∈ rest → .clear fd ∈ ops) : Procs s' :=
  h.step hr hproc ((hr.proc ▸ h.fits p).pop hr.ops hofile hsub) hr.live
    (.inr ⟨rfl, Nat.le_refl _⟩)

theorem procs_forking (hs : Procs s) (hr : Runs s p [] x) (hy : s.proc np = y)
    (hnp : y.status = .unused) :
    Procs ((s.setProc np { y with status := .used }).setProc p { x with call := .forkCopy np }) := by
  subst hy
  have hne : np ≠ p := by
    rintro rfl
    rw [hr.proc, hr.live] at hnp
    cases hnp
  have hcalm := hs.calm np (by rw [hnp]; exact nofun)
  have hnew : (s.setProc np { s.proc np with status := .used }).proc np =
      { s.proc np with status := .used } := Function.update_self _ _ _
  have hold : ∀ q, q ≠ np → (s.setProc np { s.proc np with status := .used }).proc q = s.proc q :=
    fun q hq => Function.update_of_ne hq _ _
  have hmid : Procs (s.setProc np { s.proc np with status := .used }) := by
    apply hs.update rfl
    · exact .of_idle hcalm.2
    · exact fun _ => hcalm
    · rintro (h | h) <;> cases h
    · apply hs.safeChild
      rw [hnp]
      exact nofun
    · intro nq hc
      change (s.proc np).call.child = some nq at hc
      rw [hcalm.2] at hc
      cases hc
  apply hmid.update rfl
  · exact ⟨trivial, fun h => absurd hr.ops h⟩
  · exact fun h => absurd hr.live h
  · intro hor
    change x.status = _ ∨ x.status = _ at hor
    rw [hr.live] at hor
    rcases hor with h | h <;> cases h
  · apply hmid.safeChild
    rw [hold p hne.symm, hr.proc, hr.live]
    exact nofun
  · intro nq hc
    cases hc
    refine ⟨hne, by rw [hnew], ?_, ?_⟩
    · intro fd _
      rw [hnew]
      exact hs.empty np (.inl hnp) fd
    · intro q hq hcq
      by_cases hqn : q = np
      · rw [hqn, hnew] at hcq
        change (s.proc np).call.child = some np at hcq
        rw [hcalm.2] at hcq
        cases hcq
      · rw [hold q hqn] at hcq
        have hused := hs.child q np hcq
        rw [hnp] at hused
        cases hused

theorem Procs.both (hs : Procs s) (hr : Runs s p [] x) (hc : x.call.child = some np)
    (hfits : x'.Fits) (hlive : x'.status = .live)
    (hchild : x'.call.child = none ∨ x'.call.child = x.call.child ∧ x.call.copied ≤ x'.call.copied)
    (hcall : y'.ops = [] ∧ y'.call = .idle)
    (hempty : y'.status = .unused ∨ y'.status = .zombie → ∀ fd, y'.ofile fd = none)
    (hsafe : x'.call.child = some np → y'.status = .used ∧
      ∀ fd : Fin NOFILE, x'.call.copied ≤ fd.val → y'.ofile fd = none) :
    Procs ((s.setProc np y').setProc p x') := by
  have hne : np ≠ p := by
    rw [← hr.proc] at hc
    exact (hs.child.ne hc (hr.proc ▸ hr.live)).symm
  have hmid : Procs (s.setProc p x') := hs.step hr rfl hfits hlive hchild
  have hswap : (s.setProc np y').setProc p x' = (s.setProc p x').setProc np y' := by
    simp only [State.setProc, Function.update_comm hne]
  rw [hswap]
  apply hmid.update rfl (.of_idle hcall.2) (fun _ => hcall) hempty
  · intro q hq hcq
    by_cases hqp : q = p
    · subst hqp
      have hself : (s.setProc q x').proc q = x' := Function.update_self _ _ _
      rw [hself] at hcq ⊢
      exact hsafe hcq
    · have hold : (s.setProc p x').proc q = s.proc q := Function.update_of_ne hqp _ _
      rw [hold] at hcq
      exact absurd (hs.forks q p np hcq (hr.proc ▸ hc)) hqp
  · intro nq hcn
    rw [hcall.2] at hcn
    cases hcn

variable {f : Fin NFILE} {c call : Call}

theorem Allocs.fits (h : Allocs f c call) (hops : x.ops = []) :
    ({ x with call := call } : Proc).Fits := by
  cases h <;> exact ⟨trivial, fun hne => absurd hops hne⟩

theorem Allocs.child (h : Allocs f c call) : call.child = none := by
  cases h <;> rfl

theorem Installs.child {fd : Fin NOFILE} (h : Installs fd f c call) : call.child = none := by
  cases h <;> rfl

theorem Installs.fits {fd : Fin NOFILE} (h : Installs fd f c call)
    (hknows : x.Knows c) (hops : x.ops = []) (hfd : x.ofile fd = none) :
    ({ x with ofile := Function.update x.ofile fd (some f), call := call } : Proc).Fits := by
  refine ⟨?_, fun hne => absurd hops hne⟩
  cases h with
  | fd0 => exact Function.update_self _ _ _
  | @fd1 rf fd0 =>
    have hrf : x.ofile fd0 = some rf := hknows
    have hne : fd0 ≠ fd := by
      rintro rfl
      rw [hfd] at hrf
      cases hrf
    exact ⟨(Function.update_of_ne hne _ _).trans hrf, Function.update_self _ _ _, hne⟩

theorem procs_move (h : Move s s') (hs : Procs s) : Procs s' := by
  have hfits := hs.fits
  cases h with
  | stay => exact hs
  | @turn p x ops call hr hturn =>
    exact hs.step hr rfl (turn_fits (hr.proc ▸ hfits p) hr.ops hturn) hr.live (turn_child hturn)
  | opening o hr | piped hr =>
    exact hs.step hr rfl ⟨trivial, fun hne => absurd hr.ops hne⟩ hr.live (.inl rfl)
  | alloc hr hf hc => exact hs.step hr rfl (hc.fits hr.ops) hr.live (.inl hc.child)
  | dropped hr | freed hr | iput hr =>
    exact hs.pop hr rfl (fun fd h => h.resolve_right nofun) fun _ hmem => hmem
  | closed hr =>
    exact hs.pop hr rfl (fun fd h => h.resolve_right nofun) fun _ hmem =>
      List.mem_append_right _ hmem
  | pipeclosed hr =>
    apply hs.pop hr rfl (fun fd h => h.resolve_right nofun)
    intro fd hmem
    split
    · exact List.mem_cons_of_mem _ hmem
    · exact hmem
  | @cleared p x fd rest hr =>
    apply hs.pop hr rfl _ fun _ hmem => hmem
    rintro c (hc | hc)
    · rw [Function.update_apply]
      split
      · rfl
      · exact hc
    · cases hc
      exact Function.update_self _ _ _
  | opened hr | duped hr => exact hs.step hr rfl (.of_idle rfl) hr.live (.inl rfl)
  | @reserved p x f fd hr hc hfd =>
    refine hs.step hr rfl ⟨?_, fun hne => absurd hr.ops hne⟩ hr.live (.inl rfl)
    obtain ⟨c, hcf⟩ : ∃ c, x.ofile c = some f := (hr.proc ▸ hfits p).knows_call hc
    have hne : c ≠ fd := by
      rintro rfl
      rw [hfd] at hcf
      cases hcf
    exact ⟨Function.update_self _ _ _, c, hne, (Function.update_of_ne hne _ _).trans hcf⟩
  | @installed p x f fd call hr hc hfd =>
    exact hs.step hr rfl (hc.fits (hr.proc ▸ hfits p).knows hr.ops hfd) hr.live (.inl hc.child)
  | forking hr hc hy hnp => exact procs_forking hs hr hy hnp
  | forkDup hr h hc =>
    refine hs.step hr rfl ⟨trivial, fun hne => absurd hr.ops hne⟩ hr.live (.inr ?_)
    rw [hc]
    exact ⟨rfl, Nat.le_refl _⟩
  | @unforked p x np y hr hc hy =>
    subst hy
    have hcp : (s.proc p).call.child = some np := by rw [hr.proc, hc]; rfl
    have hused := hs.child p np hcp
    apply hs.both hr (by rw [hc]; rfl)
    · exact .of_idle rfl
    · exact hr.live
    · exact .inl rfl
    · exact hs.calm np (by rw [hused]; exact nofun)
    · intro _ fd
      apply hs.later p np hcp
      rw [hr.proc, hc]
      exact Nat.zero_le _
    · exact nofun
  | @forked p x np y i hr h hc hy =>
    subst hy
    have hused := hs.child p np (by rw [hr.proc, hc]; rfl)
    apply hs.both hr (by rw [hc]; rfl)
    · exact .of_idle rfl
    · exact hr.live
    · exact .inl rfl
    · exact hs.calm np (by rw [hused]; exact nofun)
    · rintro (h | h) <;> cases h
    · exact nofun
  | @forkStored p x np y i f hr hc hy =>
    subst hy
    have hcp : (s.proc p).call.child = some np := by rw [hr.proc, hc]; rfl
    have hused := hs.child p np hcp
    apply hs.both hr (by rw [hc]; rfl)
    · exact ⟨trivial, fun hne => absurd hr.ops hne⟩
    · exact hr.live
    · rw [hc]
      exact .inr ⟨rfl, Nat.le_succ _⟩
    · exact hs.calm np (by rw [hused]; exact nofun)
    · intro hor
      change (s.proc np).status = _ ∨ (s.proc np).status = _ at hor
      rw [hused] at hor
      rcases hor with h | h <;> cases h
    · intro _
      refine ⟨hused, ?_⟩
      intro fd hfd
      change i.val + 1 ≤ fd.val at hfd
      have hne : fd ≠ i := fun he => by
        rw [he] at hfd
        omega
      refine (Function.update_of_ne hne _ _).trans (hs.later p np hcp fd ?_)
      rw [hr.proc, hc]
      exact Nat.le_of_succ_le hfd
  | @exited p x i hr h hc =>
    obtain ⟨hp, hlive, hops⟩ := hr
    subst hp
    apply hs.update rfl
    · exact .of_idle rfl
    · exact fun _ => ⟨hops, rfl⟩
    · intro _ fd
      have hknows : (s.proc p).ofile fd = none ∨ .clear fd ∈ (s.proc p).ops :=
        (hfits p).knows_call hc fd (by omega)
      rw [hops] at hknows
      exact hknows.resolve_right List.not_mem_nil
    · apply hs.safeChild
      rw [hlive]
      exact nofun
    · exact nofun
  | @reaped p x hx hz =>
    subst hx
    have hcalm := hs.calm p (by rw [hz]; exact nofun)
    apply hs.update rfl
    · exact .of_idle hcalm.2
    · exact fun _ => hcalm
    · exact fun _ => hs.empty p (.inr hz)
    · apply hs.safeChild
      rw [hz]
      exact nofun
    · intro np hc
      change (s.proc p).call.child = some np at hc
      rw [hcalm.2] at hc
      cases hc

end Procs

end Xv6.FileTable
