/-
  Xv6.FileTable.Exact — the reference counts of open files are exact.

  When no process is in a call, the count of an entry is the number of descriptors that
  point to it, and nothing is given back twice.
-/
import Xv6.FileTable.Counts

namespace Xv6.FileTable

open Lib State Finset
open Fs (NFILE NOFILE NINODE)

variable {s s' : State}

/-! ## §1. Every run. -/

theorem start_idle (init p : Slot) : ((start init).proc p).ops = [] ∧
    ((start init).proc p).call = .idle ∧
    ∀ fd, ((start init).proc p).ofile fd = none := by
  simp only [start, Function.update_apply]
  split <;> exact ⟨rfl, rfl, fun _ => rfl⟩

theorem start_child (init p : Slot) : ((start init).proc p).call.child = none := by
  rw [(start_idle init p).2.1]
  rfl

theorem procs_start (init : Slot) : Procs (.start init) := by
  constructor
  · exact fun p => .of_idle (start_idle init p).2.1
  · exact fun p _ => ⟨(start_idle init p).1, (start_idle init p).2.1⟩
  · exact fun p _ => (start_idle init p).2.2
  · intro p np hc
    rw [start_child] at hc
    cases hc
  · intro p np hc
    rw [start_child] at hc
    cases hc
  · intro p q np hc
    rw [start_child] at hc
    cases hc

theorem supply_start (init : Slot) (r : Res) : (start init).supply r = 0 := by
  cases r with
  | pipeEnd pi w => cases pi <;> rfl
  | inode ip => cases ip <;> rfl

theorem counts_start (init : Slot) : Counts (.start init) := by
  constructor
  · intro f
    symm
    apply sum_eq_zero
    intro q _
    have hidle := start_idle init q
    rw [hold_idle hidle.1 hidle.2.1, slots_eq_zero hidle.2.2]
  · exact fun _ _ => rfl
  · intro p f hf
    rw [(start_idle init p).2.1] at hf
    cases hf
  · intro p
    rw [(start_idle init p).2.1]
    exact List.nodup_nil
  · intro r
    rw [supply_start, sum_eq_zero fun f _ => gives_eq_zero rfl r, sum_eq_zero]
    · rfl
    · intro q _
      rw [Proc.transit, (start_idle init q).1, (start_idle init q).2.1]
      rfl
  · intro pi
    symm
    apply sum_eq_zero
    intro q _
    rw [Proc.frees, (start_idle init q).1]
    rfl

theorem run_counts (h : FileRun s) : Procs s ∧ Counts s := by
  apply Reachable.invariant (fun s => Procs s ∧ Counts s) _ _ h
  · rintro s ⟨init, rfl⟩
    exact ⟨procs_start init, counts_start init⟩
  · rintro s s' ⟨hp, hc⟩ ⟨a, hs⟩
    have hmove := move_of_step hp.child hs
    exact ⟨procs_move hmove hp, counts_move hmove hp hc⟩

/-! ## §2. No step panics. -/

section Panics

variable {p : Slot} {e : Panic}

theorem op_ne_error (hs : Counts s) {op : Op} {rest : List Op} (hlive : (s.proc p).status = .live)
    (hops : (s.proc p).ops = op :: rest) : s.op p rest op ≠ .error e := by
  have hr : Runs s p (op :: rest) (s.proc p) := ⟨rfl, hlive, hops⟩
  have hsupply : ∀ {r}, r ∈ op.res → 1 ≤ s.supply r := fun hmem =>
    hs.supply_pos hr (transit_of_op hops hmem)
  cases op with
  | fileclose f =>
    have href : 1 ≤ (s.file f).ref := Int.le_trans (hold_of_fileclose hops) (hs.hold_le p f)
    simp only [op]
    rw [if_neg (by omega)]
    split <;> simp
  | pipeclose pi w =>
    cases pi with
    | none => exact absurd (hsupply (List.mem_singleton_self _)) (Int.not_le.mpr Int.zero_lt_one)
    | some pi =>
      have hopen := hsupply (List.mem_singleton_self _)
      simp only [op]
      split
      · next hnone =>
        simp only [supply, hnone, Option.any_none] at hopen
        exact absurd hopen (by decide)
      · simp
  | kfree pi =>
    simp only [op, hs.page_closed hr]
    simp
  | iput ip =>
    cases ip with
    | none => exact absurd (hsupply (List.mem_singleton_self _)) (Int.not_le.mpr Int.zero_lt_one)
    | some ip =>
      have hpos : 1 ≤ s.irefs ip := hsupply (List.mem_singleton_self _)
      simp only [op]
      rw [if_neg (by omega)]
      simp
  | clear fd => simp [op]

theorem filedup_map_ne_error (hs : Counts s) {f : Fin NFILE} {fd : Fin NOFILE} {g : State → State}
    (hf : (s.proc p).eff fd = some f) : (s.filedup f).map g ≠ .error e := by
  have href : 1 ≤ (s.file f).ref := Int.le_trans (hold_of_slot hf) (hs.hold_le p f)
  unfold filedup
  rw [if_neg (by omega)]
  exact nofun

theorem next_ne_error (hp : Procs s) (hs : Counts s) {ans : Answer} (hops : (s.proc p).ops = []) :
    s.next p ans (s.proc p).call ≠ .error e := by
  cases hc : (s.proc p).call with
  | dupRef f fd =>
    obtain ⟨c, hcf⟩ := dupRef_eff (hp.fits p) hops hc
    exact filedup_map_ne_error hs hcf
  | forkFd np i =>
    simp only [next]
    split
    · next hi =>
      split
      · simp
      · next f hf =>
        have heff : (s.proc p).eff ⟨i, hi⟩ = some f := by
          rw [eff_eq (by simp [hops]) (by rw [hc]; rfl)]
          exact hf
        exact filedup_map_ne_error hs heff
    · simp
  | openFile o =>
    simp only [next]
    split
    · simp
    · split <;> simp
  | exitFd i =>
    simp only [next]
    split
    · split <;> simp
    · simp
  | openFd | dupFd | pipeFile0 | pipeFile1 | pipeKalloc | pipeFd0 | pipeFd1 | pipeCopyout
  | forkCopy =>
    simp only [next]
    split <;> simp
  | idle | forkStore => simp [next]

theorem step_ne_error (hp : Procs s) (hs : Counts s) (a : Act) : s.step a ≠ .error e := by
  cases a with
  | begin p c | reap p =>
    simp only [step]
    split <;> simp
  | go p ans =>
    simp only [step]
    split
    · next hlive =>
      unfold go
      split
      · next op rest hops => exact op_ne_error hs hlive hops
      · next hops => exact next_ne_error hp hs hops
    · simp

end Panics

/-! ## §3. The last reference. -/

variable {f : Fin NFILE}

theorem res_change (h : Move s s') (hs : Counts s) :
    (s'.file f).res = (s.file f).res ∨ (s.file f).type = .FD_NONE ∨
      (s.file f).ref = 1 ∧ (s'.file f).ref = 0 := by
  have hset : ∀ {g file}, (file.res = (s.file g).res ∨ (s.file g).type = .FD_NONE ∨
      (s.file g).ref = 1 ∧ file.ref = 0) → ((s.setFile g file).file f).res = (s.file f).res ∨
        (s.file f).type = .FD_NONE ∨ (s.file f).ref = 1 ∧ ((s.setFile g file).file f).ref = 0 := by
    intro g file hg
    by_cases hfg : f = g
    · subst hfg
      rw [setFile_self]
      exact hg
    · rw [setFile_of_ne hfg]
      exact .inl rfl
  cases h with
  | dropped | alloc | duped | forkDup => exact hset (.inl rfl)
  | closed hr href => exact hset (.inr (.inr ⟨href, rfl⟩))
  | @opened p x o g fd hr hc hfd =>
    exact hset (.inr (.inl (fresh_of_call hs hr hc (List.mem_singleton_self g)).2))
  | @piped p x f0 f1 pi hr hc hpi =>
    by_cases hmem : f ∈ [f0, f1]
    · exact .inr (.inl (fresh_of_call hs hr hc hmem).2)
    · simp only [List.mem_cons, List.not_mem_nil, or_false, not_or] at hmem
      left
      show ((s.initPipe f0 f1 pi).file f).res = _
      rw [initPipe_of_ne hmem.1 hmem.2]
  | _ => exact .inl rfl

/-! ## §4. Between system calls. -/

def Quiet (s : State) : Prop := ∀ p, (s.proc p).ops = [] ∧ (s.proc p).call = .idle

/-- The number of descriptors of all processes that point to `f`. -/
def pointers (s : State) (f : Fin NFILE) : Nat :=
  ∑ p, (Finset.univ.filter fun fd => (s.proc p).ofile fd = some f).card

def entries (s : State) (r : Res) : Nat :=
  (Finset.univ.filter fun f => 0 < (s.file f).ref ∧ (s.file f).res = some r).card

theorem slots_eq_card (ofile : Fin NOFILE → Option (Fin NFILE)) (f : Fin NFILE) :
    slots ofile f = (Finset.univ.filter fun fd => ofile fd = some f).card := by
  simp [slots, flag]

theorem ref_eq_pointers (hs : Counts s) (hq : Quiet s) (f : Fin NFILE) :
    (s.file f).ref = pointers s f := by
  rw [hs.ref f, pointers, Nat.cast_sum]
  apply sum_congr rfl
  intro p _
  rw [hold_idle (hq p).1 (hq p).2, slots_eq_card]

theorem ref_pos_of_res (hs : Counts s) {r : Res} (h : (s.file f).res = some r) :
    0 < (s.file f).ref := by
  have hnonneg := hs.ref_nonneg f
  rcases Int.lt_or_eq_of_le hnonneg with hpos | hzero
  · exact hpos
  · have hnone := hs.free f hzero.symm
    simp [File.res, hnone] at h

theorem supply_eq_entries (hs : Counts s) (hq : Quiet s) (r : Res) : s.supply r = entries s r := by
  have htransit : ∑ q, (s.proc q).transit r = 0 := by
    apply sum_eq_zero
    intro q _
    rw [Proc.transit, (hq q).1, (hq q).2]
    rfl
  have hgives : ∀ f, (s.file f).gives r =
      if 0 < (s.file f).ref ∧ (s.file f).res = some r then 1 else 0 := by
    intro f
    by_cases h : (s.file f).res = some r
    · simp [File.gives, h, ref_pos_of_res hs h]
    · simp [File.gives, h]
  rw [hs.res r, htransit, sum_congr rfl fun f _ => hgives f, entries, card_filter]
  simp

theorem pointers_eq_zero_iff : pointers s f = 0 ↔ ∀ p fd, (s.proc p).ofile fd ≠ some f := by
  simp [pointers, sum_eq_zero_iff, filter_eq_empty_iff]

structure RefsExact (s : State) : Prop where
  /-- Between system calls, `ref` is the number of descriptors. -/
  ref : Quiet s → ∀ f, (s.file f).ref = pointers s f
  reusable : Quiet s → ∀ f, (s.file f).ref = 0 ↔ ∀ p fd, (s.proc p).ofile fd ≠ some f
  safe : ∀ a e, s.step a ≠ .error e
  /-- An entry keeps what is behind it until its last reference is dropped. -/
  last : ∀ a s', s.step a = .ok s' → ∀ f, (s'.file f).res = (s.file f).res ∨
    (s.file f).type = .FD_NONE ∨ (s.file f).ref = 1 ∧ (s'.file f).ref = 0
  /-- An end of a pipe is open as long as one entry has it. -/
  pipe : Quiet s → ∀ pi w, entries s (.pipeEnd (some pi) w) =
    if (s.pipe pi).any fun q => q.isOpen w then 1 else 0
  page : Quiet s → ∀ pi, s.pipe pi ≠ some ⟨false, false⟩
  /-- Every reference to an inode belongs to one entry. -/
  inode : Quiet s → ∀ ip, s.irefs ip = entries s (.inode (some ip))

/-- **The reference counts of open files are exact** in every run, with failures at any point. -/
theorem file_refs_exact (h : FileRun s) : RefsExact s := by
  obtain ⟨hp, hc⟩ := run_counts h
  constructor
  · exact ref_eq_pointers hc
  · intro hq f
    rw [ref_eq_pointers hc hq f, ← pointers_eq_zero_iff]
    exact Int.natCast_eq_zero
  · exact fun a e => step_ne_error hp hc a
  · exact fun a s' hs f => res_change (move_of_step hp.child hs) hc
  · intro hq pi w
    have hsupply := supply_eq_entries hc hq (.pipeEnd (some pi) w)
    rw [supply, flag] at hsupply
    split at hsupply <;> next hopen =>
      simp only [hopen]
      simp
      omega
  · intro hq pi hclosed
    have hpage := hc.page pi
    rw [hclosed, Finset.sum_eq_zero] at hpage
    · exact absurd hpage (by decide)
    · intro q _
      rw [Proc.frees, (hq q).1]
      rfl
  · exact fun hq ip => supply_eq_entries hc hq (.inode (some ip))

/-! ## §5. A run. -/

def State.run (s : State) : List Act → Except Panic State
  | [] => .ok s
  | a :: as => (s.step a).bind fun s' => s'.run as

theorem FileRun.run {as : List Act} (h : FileRun s) (hs : s.run as = .ok s') : FileRun s' := by
  induction as generalizing s with
  | nil =>
    cases hs
    exact h
  | cons a as ih =>
    simp only [run] at hs
    cases ht : s.step a with
    | error e =>
      rw [ht] at hs
      cases hs
    | ok t =>
      rw [ht] at hs
      exact ih (h.next ⟨a, ht⟩) hs

def pipeAndFork : List Act :=
  [.begin 0 .pipe] ++ List.replicate 6 (.go 0 ⟨some 7, true⟩) ++ [.begin 0 (.fork 1)] ++
    List.replicate 20 (.go 0 ⟨none, true⟩) ++ [.begin 1 (.close 1)] ++
    List.replicate 2 (.go 1 ⟨none, true⟩)

instance (s : State) : Decidable (Quiet s) :=
  inferInstanceAs (Decidable (∀ p, (s.proc p).ops = [] ∧ (s.proc p).call = .idle))

theorem file_refs_exact_pipeAndFork : ∃ s, FileRun s ∧ Quiet s ∧ pointers s 0 = 2 ∧
    pointers s 1 = 1 ∧ entries s (.pipeEnd (some 7) true) = 1 := by
  have hacts : ((start 0).run pipeAndFork).toOption.any (fun s =>
      Quiet s ∧ (s.file 0).ref = 2 ∧ (s.file 1).ref = 1 ∧ s.pipe 7 = some ⟨true, true⟩) = true := by
    decide +kernel
  obtain ⟨s, hs, htest⟩ := (Option.any_eq_true _ _).mp hacts
  obtain ⟨hq, h0, h1, hpipe⟩ := of_decide_eq_true htest
  have hok : (start 0).run pipeAndFork = .ok s := by
    cases hrun : (start 0).run pipeAndFork with
    | error e =>
      rw [hrun] at hs
      cases hs
    | ok t =>
      rw [hrun] at hs
      cases hs
      rfl
  have hrun : FileRun s := FileRun.run (.start ⟨0, rfl⟩) hok
  have hexact := file_refs_exact hrun
  refine ⟨s, hrun, hq, ?_, ?_, ?_⟩
  · have href := hexact.ref hq 0
    omega
  · have href := hexact.ref hq 1
    omega
  · rw [hexact.pipe hq 7 true, hpipe]
    rfl

end Xv6.FileTable
