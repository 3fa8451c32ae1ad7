/-
  Xv6.FileTable.Holdings — what each process holds.

  A reference to an open file is in a descriptor, or a process carries it from one step to
  the next.  A descriptor that is about to be cleared does not count (`Proc.eff`).
-/
import Xv6.FileTable.Machine

namespace Xv6.FileTable

open Lib Function
open Fs (NFILE NOFILE NINODE)

/-! ## §1. References to files. -/

def Op.carries : Op → List (Fin NFILE)
  | .fileclose f => [f]
  | _ => []

def Call.carries : Call → List (Fin NFILE)
  | .openFd _ f | .pipeFile1 f | .forkStore _ _ f | .pipeFd1 _ f _ => [f]
  | .pipeKalloc f0 f1 | .pipeFd0 f0 f1 => [f0, f1]
  | _ => []

/-- The descriptor for which dup has not taken a reference yet. -/
def Call.reserved : Call → Option (Fin NOFILE)
  | .dupRef _ fd => some fd
  | _ => none

def Proc.pending (x : Proc) (fd : Fin NOFILE) : Prop :=
  .clear fd ∈ x.ops ∨ x.call.reserved = some fd

instance (x : Proc) (fd : Fin NOFILE) : Decidable (x.pending fd) :=
  inferInstanceAs (Decidable (_ ∨ _))

/-- The descriptors that stand for a reference. -/
def Proc.eff (x : Proc) (fd : Fin NOFILE) : Option (Fin NFILE) :=
  if x.pending fd then none else x.ofile fd

def Proc.carried (x : Proc) : List (Fin NFILE) := x.ops.flatMap Op.carries ++ x.call.carries

def slots (ofile : Fin NOFILE → Option (Fin NFILE)) (f : Fin NFILE) : Int :=
  ∑ fd, flag (ofile fd = some f)

def Proc.hold (x : Proc) (f : Fin NFILE) : Int := slots x.eff f + x.carried.count f

theorem flag_some_self (f : Fin NFILE) : flag (some f = some f) = 1 := by
  simp [flag]

theorem slots_nonneg (ofile : Fin NOFILE → Option (Fin NFILE)) (f : Fin NFILE) :
    0 ≤ slots ofile f :=
  Finset.sum_nonneg fun _ _ => flag_nonneg _

theorem hold_nonneg (x : Proc) (f : Fin NFILE) : 0 ≤ x.hold f := by
  have hslots := slots_nonneg x.eff f
  unfold Proc.hold
  omega

theorem slots_update (ofile : Fin NOFILE → Option (Fin NFILE)) (fd : Fin NOFILE)
    (o : Option (Fin NFILE)) (f : Fin NFILE) :
    slots (update ofile fd o) f = slots ofile f - flag (ofile fd = some f) + flag (o = some f) :=
  sum_update (fun o => flag (o = some f)) ofile fd o

variable {ofile : Fin NOFILE → Option (Fin NFILE)} {x : Proc}

theorem slots_pos {fd : Fin NOFILE} {f : Fin NFILE}
    (h : ofile fd = some f) : 1 ≤ slots ofile f := by
  have hle : flag (ofile fd = some f) ≤ slots ofile f :=
    le_sum (fun o => flag_nonneg (o = some f)) ofile fd
  rw [h, flag_some_self] at hle
  exact hle

theorem slots_eq_zero (h : ∀ fd, ofile fd = none) (f : Fin NFILE) : slots ofile f = 0 := by
  simp [slots, h, flag]

theorem eff_eq_ite {l : List (Fin NOFILE)} (hops : ∀ c, .clear c ∈ x.ops ↔ c ∈ l)
    (hcall : x.call.reserved = none) : x.eff = fun c => if c ∈ l then none else x.ofile c := by
  funext c
  apply ite_congr _ (fun _ => rfl) (fun _ => rfl)
  rw [Proc.pending, hops, hcall]
  simp

theorem eff_eq (hops : ∀ fd, .clear fd ∉ x.ops) (hcall : x.call.reserved = none) :
    x.eff = x.ofile := by
  rw [eff_eq_ite (l := []) (by simpa using hops) hcall]
  simp

theorem eff_clear (fd : Fin NOFILE) (hops : ∀ c, .clear c ∈ x.ops ↔ c = fd)
    (hcall : x.call.reserved = none) : x.eff = update x.ofile fd none := by
  rw [eff_eq_ite (l := [fd]) (by simpa using hops) hcall]
  funext c
  rw [update_apply]
  simp

theorem eff_clear_two (fd0 fd1 : Fin NOFILE)
    (hops : ∀ c, .clear c ∈ x.ops ↔ c = fd0 ∨ c = fd1) (hcall : x.call.reserved = none) :
    x.eff = update (update x.ofile fd0 none) fd1 none := by
  rw [eff_eq_ite (l := [fd1, fd0]) (by simpa [or_comm] using hops) hcall]
  funext c
  rw [update_apply, update_apply]
  by_cases h : c = fd1
  · simp [h]
  · simp [h]

theorem hold_idle (hops : x.ops = []) (hcall : x.call = .idle) (f : Fin NFILE) :
    x.hold f = slots x.ofile f := by
  rw [Proc.hold, eff_eq (by simp [hops]) (by rw [hcall]; rfl), Proc.carried, hops, hcall]
  simp [Call.carries]

/-! ## §2. Pipes and inodes. -/

inductive Res where
  | pipeEnd (pi : Option Nat) (writable : Bool)
  | inode (ip : Option (Fin NINODE))
  deriving DecidableEq

def File.res (file : File) : Option Res :=
  match file.type with
  | .FD_PIPE => some (.pipeEnd file.pipe file.writable)
  | .FD_INODE | .FD_DEVICE => some (.inode file.ip)
  | .FD_NONE => none

def File.gives (file : File) (r : Res) : Int := flag (file.res = some r)

def Op.res : Op → List Res
  | .pipeclose pi w => [.pipeEnd pi w]
  | .iput ip => [.inode ip]
  | _ => []

def Call.res : Call → List Res
  | .openFile o | .openFd o _ => [.inode (some o.ip)]
  | _ => []

/-- What a process is about to give back, or to put behind an entry. -/
def Proc.transit (x : Proc) (r : Res) : Int := (x.ops.flatMap Op.res ++ x.call.res).count r

def Proc.frees (x : Proc) (pi : Nat) : Int := x.ops.count (.kfree pi)

theorem transit_nonneg (x : Proc) (r : Res) : 0 ≤ x.transit r := Int.natCast_nonneg _

theorem frees_nonneg (x : Proc) (pi : Nat) : 0 ≤ x.frees pi := Int.natCast_nonneg _

theorem release_res (ff : File) : ff.release.flatMap Op.res = ff.res.toList := by
  cases h : ff.type <;> simp [File.release, File.res, Op.res, h]

theorem release_carries (ff : File) : ff.release.flatMap Op.carries = [] := by
  cases h : ff.type <;> simp [File.release, Op.carries, h]

theorem clear_not_mem_release (ff : File) (fd : Fin NOFILE) : .clear fd ∉ ff.release := by
  cases h : ff.type <;> simp [File.release, h]

theorem kfree_not_mem_release (ff : File) (pi : Nat) : .kfree pi ∉ ff.release := by
  cases h : ff.type <;> simp [File.release, h]

def Pipe.isOpen (q : Pipe) (writable : Bool) : Bool := if writable then q.writeopen else q.readopen

def State.supply (s : State) : Res → Int
  | .pipeEnd (some pi) w => flag ((s.pipe pi).any fun q => q.isOpen w)
  | .inode (some ip) => s.irefs ip
  | .pipeEnd none _ | .inode none => 0

/-! ## §3. The process alone. -/

def Proc.Knows (x : Proc) : Call → Prop
  | .dupFd f => ∃ fd, x.ofile fd = some f
  | .dupRef f fd => x.ofile fd = some f ∧ ∃ c, c ≠ fd ∧ x.ofile c = some f
  | .pipeFd1 rf _ fd0 => x.ofile fd0 = some rf
  | .pipeCopyout rf wf fd0 fd1 => x.ofile fd0 = some rf ∧ x.ofile fd1 = some wf ∧ fd0 ≠ fd1
  | .exitFd i => ∀ fd : Fin NOFILE, fd.val < i → x.ofile fd = none ∨ .clear fd ∈ x.ops
  | _ => True

structure Proc.Fits (x : Proc) : Prop where
  knows : x.Knows x.call
  simple : x.ops ≠ [] → x.call = .idle ∨ ∃ i, x.call = .exitFd i

namespace Proc.Fits

variable {x : Proc} {ofile : Fin NOFILE → Option (Fin NFILE)} {ops rest : List Op} {op : Op}
  {call : Call}

theorem knows_call (h : x.Fits) (hc : x.call = call) : x.Knows call := hc ▸ h.knows

theorem of_idle (hc : x.call = .idle) : x.Fits := by
  refine ⟨?_, fun _ => .inl hc⟩
  rw [hc]
  trivial

theorem pop (h : x.Fits) (hops : x.ops = op :: rest)
    (hofile : ∀ fd, x.ofile fd = none ∨ op = .clear fd → ofile fd = none)
    (hsub : ∀ fd, .clear fd ∈ rest → .clear fd ∈ ops) :
    ({ x with ofile := ofile, ops := ops } : Proc).Fits := by
  rcases h.simple (by simp [hops]) with hc | ⟨i, hc⟩
  · exact of_idle hc
  · refine ⟨?_, fun _ => .inr ⟨i, hc⟩⟩
    show Proc.Knows _ x.call
    rw [hc]
    intro fd hfd
    have hknows : x.ofile fd = none ∨ .clear fd ∈ x.ops := h.knows_call hc fd hfd
    rw [hops, List.mem_cons] at hknows
    rcases hknows with hn | hn | hn
    · exact .inl (hofile fd (.inl hn))
    · exact .inl (hofile fd (.inr hn.symm))
    · exact .inr (hsub fd hn)

end Proc.Fits

section Turns

variable {x : Proc} {ops : List Op} {call : Call}

theorem turn_hold (hx : x.Fits) (hops : x.ops = []) (h : Turn x ops call) (f : Fin NFILE) :
    ({ x with ops := ops, call := call } : Proc).hold f = x.hold f := by
  cases h with
  | dup hc | pipe hc | exit hc | openNoFile hc | openNoFd hc | dupNoFd hc | pipeNoFile0 hc
  | pipeNoFile1 hc | pipeNoPage hc | pipeNoFd0 hc | pipeDone hc | forkCopied hc | forkSkip hc
  | exitSkip hc =>
    rw [Proc.hold, Proc.hold, eff_eq (by simp) rfl, eff_eq (by simp [hops]) (by rw [hc]; rfl)]
    simp [Proc.carried, Op.carries, Call.carries, hops, hc]
  | @close fd g hc hf =>
    rw [Proc.hold, Proc.hold, eff_clear fd (by simp) rfl,
      eff_eq (by simp [hops]) (by rw [hc]; rfl), slots_update, hf]
    simp [Proc.carried, Op.carries, Call.carries, hops, hc, count_cons_flag]
  | @exitClose i g hc h hf =>
    rw [Proc.hold, Proc.hold, eff_clear ⟨i, h⟩ (by simp) rfl,
      eff_eq (by simp [hops]) (by rw [hc]; rfl), slots_update, hf]
    simp [Proc.carried, Op.carries, Call.carries, hops, hc, count_cons_flag]
  | @pipeNoFd1 rf wf fd0 hc =>
    have hrf : x.ofile fd0 = some rf := hx.knows_call hc
    rw [Proc.hold, Proc.hold, eff_clear fd0 (by simp) rfl,
      eff_eq (by simp [hops]) (by rw [hc]; rfl), slots_update, hrf]
    simp [Proc.carried, Op.carries, Call.carries, hops, hc, count_cons_flag]
  | @pipeNoCopy rf wf fd0 fd1 hc =>
    obtain ⟨hrf, hwf, hne⟩ := hx.knows_call hc
    rw [Proc.hold, Proc.hold, eff_clear_two fd0 fd1 (by simp) rfl,
      eff_eq (by simp [hops]) (by rw [hc]; rfl), slots_update, slots_update,
      update_of_ne hne.symm, hrf, hwf]
    simp [Proc.carried, Op.carries, Call.carries, hops, hc, count_cons_flag]
    omega

theorem turn_transit (hops : x.ops = []) (h : Turn x ops call) (r : Res) :
    ({ x with ops := ops, call := call } : Proc).transit r = x.transit r := by
  cases h <;> simp_all [Proc.transit, Op.res, Call.res]

theorem turn_fits (hx : x.Fits) (hops : x.ops = []) (h : Turn x ops call) :
    ({ x with ops := ops, call := call } : Proc).Fits := by
  cases h with
  | @dup fd f hc hf => exact ⟨⟨fd, hf⟩, fun h => absurd rfl h⟩
  | pipe | forkCopied | forkSkip => exact ⟨trivial, fun h => absurd rfl h⟩
  | exit => exact ⟨fun fd h => absurd h (Nat.not_lt_zero _), fun h => absurd rfl h⟩
  | @exitSkip i hc hi hf =>
    refine ⟨?_, fun h => absurd rfl h⟩
    intro fd hfd
    rcases Nat.lt_succ_iff_lt_or_eq.mp hfd with hlt | heq
    · have hknows : x.ofile fd = none ∨ .clear fd ∈ x.ops := hx.knows_call hc fd hlt
      rwa [hops] at hknows
    · rw [show fd = ⟨i, hi⟩ from Fin.ext heq]
      exact .inl hf
  | @exitClose i f hc hi hf =>
    refine ⟨?_, fun _ => .inr ⟨_, rfl⟩⟩
    intro fd hfd
    rcases Nat.lt_succ_iff_lt_or_eq.mp hfd with hlt | heq
    · have hknows : x.ofile fd = none ∨ .clear fd ∈ x.ops := hx.knows_call hc fd hlt
      rw [hops] at hknows
      exact .inl (hknows.resolve_right List.not_mem_nil)
    · right
      simp [← heq]
  | _ => exact .of_idle rfl

theorem turn_frees (hops : x.ops = []) (h : Turn x ops call) (pi : Nat) :
    ({ x with ops := ops, call := call } : Proc).frees pi = x.frees pi := by
  cases h <;> simp_all [Proc.frees]

end Turns

/-! ## §4. The other steps of a process. -/

section Steps

variable {x : Proc} {op : Op} {rest more : List Op} {call : Call} {fd : Fin NOFILE} {f : Fin NFILE}

theorem hold_pop (hops : x.ops = op :: rest) (hop : ∀ fd, op ≠ .clear fd)
    (hmore : ∀ fd, .clear fd ∉ more) (hcarries : more.flatMap Op.carries = []) (g : Fin NFILE) :
    ({ x with ops := more ++ rest } : Proc).hold g = x.hold g - op.carries.count g := by
  have heff : ({ x with ops := more ++ rest } : Proc).eff = x.eff := by
    funext c
    apply ite_congr _ (fun _ => rfl) (fun _ => rfl)
    simp [Proc.pending, hops, hmore c, (hop c).symm]
  rw [Proc.hold, Proc.hold, heff]
  simp [Proc.carried, hops, hcarries]
  omega

theorem hold_clear (hops : x.ops = .clear fd :: rest) (g : Fin NFILE) :
    ({ x with ofile := update x.ofile fd none, ops := rest } : Proc).hold g = x.hold g := by
  have heff : ({ x with ofile := update x.ofile fd none, ops := rest } : Proc).eff = x.eff := by
    funext c
    by_cases hc : c = fd
    · have hpend : x.pending c := .inl (by simp [hops, hc])
      have hnone : update x.ofile fd none c = none := by rw [hc, update_self]
      simp only [Proc.eff, if_pos hpend, hnone, ite_self]
    · simp only [Proc.eff, update_of_ne hc]
      apply ite_congr _ (fun _ => rfl) (fun _ => rfl)
      simp [Proc.pending, hops, hc]
  rw [Proc.hold, Proc.hold, heff]
  simp [Proc.carried, hops, Op.carries]

section

variable (call : Call) (hops : x.ops = []) (hc : x.call.reserved = none)
  (hcall : call.reserved = none)

include hops hc hcall

theorem hold_goto (g : Fin NFILE) : ({ x with call := call } : Proc).hold g =
      x.hold g - x.call.carries.count g + call.carries.count g := by
  rw [Proc.hold, Proc.hold, eff_eq (by simp [hops]) hc, eff_eq (by simp [hops]) hcall]
  simp [Proc.carried, hops]

theorem hold_install (hfd : x.ofile fd = none) (g : Fin NFILE) :
    ({ x with ofile := update x.ofile fd (some f), call := call } : Proc).hold g =
      x.hold g + flag (f = g) - x.call.carries.count g + call.carries.count g := by
  rw [Proc.hold, Proc.hold, eff_eq (by simp [hops]) hc, eff_eq (by simp [hops]) hcall,
    slots_update, hfd]
  simp [Proc.carried, hops]
  omega

end

theorem eff_dupRef (hops : x.ops = []) (hc : x.call = .dupRef f fd) :
    x.eff = update x.ofile fd none := by
  funext c
  by_cases hcd : c = fd
  · rw [hcd, update_self]
    exact if_pos (.inr (by rw [hc]; rfl))
  · rw [update_of_ne hcd]
    apply if_neg
    simp [Proc.pending, hops, hc, Call.reserved, Ne.symm hcd]

theorem hold_reserve (hops : x.ops = []) (hc : x.call = .dupFd f) (hfd : x.ofile fd = none)
    (g : Fin NFILE) :
    ({ x with ofile := update x.ofile fd (some f), call := .dupRef f fd } : Proc).hold g =
      x.hold g := by
  rw [Proc.hold, Proc.hold, eff_dupRef (by exact hops) rfl, eff_eq (by simp [hops]) (by rw [hc]; rfl)]
  simp [Proc.carried, hops, hc, Call.carries, ← hfd]

theorem hold_duped (hops : x.ops = []) (hc : x.call = .dupRef f fd) (hfd : x.ofile fd = some f)
    (g : Fin NFILE) : ({ x with call := .idle } : Proc).hold g = x.hold g + flag (f = g) := by
  rw [hold_idle (by exact hops) rfl, Proc.hold, eff_dupRef hops hc, slots_update, hfd]
  simp [Proc.carried, hops, hc, Call.carries]

variable {ofile : Fin NOFILE → Option (Fin NFILE)}

theorem transit_pop (hops : x.ops = op :: rest) (r : Res) :
    ({ x with ofile := ofile, ops := more ++ rest } : Proc).transit r =
      x.transit r - op.res.count r + (more.flatMap Op.res).count r := by
  simp [Proc.transit, hops]
  omega

theorem transit_goto {status : Status} (r : Res) :
    ({ x with status := status, ofile := ofile, call := call } : Proc).transit r =
      x.transit r - x.call.res.count r + call.res.count r := by
  simp [Proc.transit]

theorem frees_pop (hops : x.ops = op :: rest) (pi : Nat) :
    ({ x with ofile := ofile, ops := more ++ rest } : Proc).frees pi =
      x.frees pi - [op].count (.kfree pi) + more.count (.kfree pi) := by
  simp [Proc.frees, hops, List.count_cons]
  omega

end Steps

end Xv6.FileTable
