/-
  Xv6.Proc.Ancestors — the walks up the process tree.

  `log_trap` and `child_processes` follow `p->parent` until NULL and check no bound.
  `set_cpu_quota` goes back to the parent of its target in every turn.
-/
import Xv6.Proc.Types
import Xv6.Lib.Forest

namespace Xv6.Ancestors

open Lib Function

inductive Stop where
  /-- Still following pointers after `fuel` of them. -/
  | running
  /-- A store behind the end of an array of NPROC entries. -/
  | overflow
  deriving DecidableEq

def parentOf (proc : Slot → Proc) (p : Slot) : Option Slot := (proc p).parent

/-! ## §1. `log_trap`. -/

def logTrapLoop (proc : Slot → Proc) :
    Nat → Option Slot → Nat → (Fin NPROC → UInt32) → Except Stop (Nat × (Fin NPROC → UInt32))
  | _, none, ac, ancestors => .ok (ac, ancestors)
  | 0, some _, _, _ => .error .running
  | fuel + 1, some parent, ac, ancestors =>
    if h : ac < NPROC then
      logTrapLoop proc fuel (proc parent).parent (ac + 1)
        (update ancestors ⟨ac, h⟩ (proc parent).pid)
    else .error .overflow

/-- The walk of `log_trap` for process `p`; `ancestors` is the array of the
fresh report. -/
def logTrap (proc : Slot → Proc) (fuel : Nat) (p : Slot) (ancestors : Fin NPROC → UInt32) :
    Except Stop (Nat × (Fin NPROC → UInt32)) :=
  logTrapLoop proc fuel (proc p).parent 0 ancestors

theorem logTrapLoop_of_walkUp (proc : Slot → Proc) (fuel : Nat) (o : Option Slot) (l : List Slot)
    (ac : Nat) (ancestors : Fin NPROC → UInt32) (h : walkUp (parentOf proc) fuel o = some l)
    (hroom : ac + l.length ≤ NPROC) :
    ∃ out, logTrapLoop proc fuel o ac ancestors = .ok (ac + l.length, out) ∧
      (∀ k : Fin NPROC, k < ac → out k = ancestors k) ∧
      ∀ j (hj : j < l.length), out ⟨ac + j, by omega⟩ = (proc (l.get ⟨j, hj⟩)).pid := by
  induction fuel generalizing o l ac ancestors with
  | zero =>
    cases o with
    | none =>
      obtain rfl : [] = l := Option.some.inj h
      exact ⟨ancestors, rfl, fun _ _ => rfl, fun j hj => absurd hj (by simp)⟩
    | some q => exact absurd h (by simp [walkUp])
  | succ n ih =>
    cases o with
    | none =>
      obtain rfl : [] = l := Option.some.inj h
      exact ⟨ancestors, rfl, fun _ _ => rfl, fun j hj => absurd hj (by simp)⟩
    | some q =>
      obtain ⟨rest, hrest, rfl⟩ := Option.map_eq_some_iff.mp h
      rw [List.length_cons] at hroom
      have hac : ac < NPROC := by omega
      obtain ⟨out, hout, hold, hnew⟩ := ih (proc q).parent rest (ac + 1)
        (update ancestors ⟨ac, hac⟩ (proc q).pid) hrest (by omega)
      refine ⟨out, ?_, ?_, ?_⟩
      · rw [logTrapLoop, dif_pos hac, hout, List.length_cons]
        congr 2
        omega
      · intro k hk
        rw [hold k (by omega), update_of_ne (fun he => by rw [he] at hk; exact absurd hk (by simp))]
      · intro j hj
        cases j with
        | zero =>
          have hself := hold ⟨ac, hac⟩ (Nat.lt_succ_self ac)
          rw [update_self] at hself
          exact hself
        | succ j =>
          have := hnew j (by simpa using hj)
          have he : ac + 1 + j = ac + (j + 1) := by omega
          simp only [he] at this
          exact this

variable {proc : Slot → Proc} {rank : Slot → Nat}

/-- **`log_trap` on a forest** stops after fewer than NPROC pointers, with all its stores inside the
array. -/
theorem logTrap_forest
    (hrank : Ranked (parentOf proc) rank) (p : Slot) (ancestors : Fin NPROC → UInt32) :
    ∃ l : List Slot, l.Nodup ∧ (∀ q, q ∈ l ↔ IsAncestor (parentOf proc) p q) ∧
      l.length < NPROC ∧ ∀ fuel, NPROC ≤ fuel →
        ∃ out, logTrap proc fuel p ancestors = .ok (l.length, out) ∧
          ∀ j (hj : j < l.length) (hj' : j < NPROC), out ⟨j, hj'⟩ = (proc (l.get ⟨j, hj⟩)).pid := by
  obtain ⟨l, hwalk, hnodup, hlen⟩ := hrank.walkUp_card p
  rw [Fintype.card_fin] at hlen
  refine ⟨l, (List.nodup_cons.mp hnodup).2, ?_, hlen, ?_⟩
  · exact fun q => mem_walkUp (hwalk l.length (Nat.le_refl _)) q
  · intro fuel hfuel
    obtain ⟨out, hout, _, hnew⟩ := logTrapLoop_of_walkUp proc fuel (proc p).parent l 0 ancestors
      (hwalk fuel (by omega)) (by omega)
    refine ⟨out, ?_, fun j hj hj' => ?_⟩
    · rw [logTrap, hout, Nat.zero_add]
    · have := hnew j hj
      simp only [Nat.zero_add] at this
      exact this

/-! ## §2. `child_processes`. -/

/-- `struct proc_info`, without the name. -/
structure ProcInfo where
  pid : UInt32
  ppid : UInt32
  state : ProcState
  deriving DecidableEq

structure ChildProcesses where
  count : UInt32
  processes : Fin NPROC → ProcInfo

/-- `while (parent != NULL)`: is `current` met on the way up? -/
def descends (proc : Slot → Proc) (current : Slot) : Nat → Option Slot → Except Stop Bool
  | _, none => .ok false
  | 0, some _ => .error .running
  | fuel + 1, some parent =>
    if parent = current then .ok true else descends proc current fuel (proc parent).parent

def childStep (proc : Slot → Proc) (current : Slot) (fuel : Nat) (st : Nat × ChildProcesses)
    (p : Slot) : Except Stop (Nat × ChildProcesses) :=
  if (proc p).state = .UNUSED then .ok st
  else
    match descends proc current fuel (proc p).parent with
    | .error e => .error e
    | .ok false => .ok st
    | .ok true =>
      if h : st.1 < NPROC then
        .ok (st.1 + 1,
          { count := st.2.count + 1
            processes := update st.2.processes ⟨st.1, h⟩
              { pid := (proc p).pid
                ppid := ((proc p).parent.map fun q => (proc q).pid).getD 0
                state := (proc p).state } })
      else .error .overflow

def childProcesses (proc : Slot → Proc) (current : Slot) (fuel : Nat) (cp : ChildProcesses) :
    Except Stop (Nat × ChildProcesses) :=
  (List.finRange NPROC).foldlM (childStep proc current fuel) (0, cp)

theorem descends_of_walkUp (proc : Slot → Proc) (current : Slot) (fuel : Nat) (o : Option Slot)
    (l : List Slot) (h : walkUp (parentOf proc) fuel o = some l) :
    descends proc current fuel o = .ok (decide (current ∈ l)) := by
  induction fuel generalizing o l with
  | zero =>
    cases o with
    | none =>
      obtain rfl : [] = l := Option.some.inj h
      simp [descends]
    | some q => exact absurd h (by simp [walkUp])
  | succ n ih =>
    cases o with
    | none =>
      obtain rfl : [] = l := Option.some.inj h
      simp [descends]
    | some q =>
      obtain ⟨rest, hrest, rfl⟩ := Option.map_eq_some_iff.mp h
      rw [descends]
      split
      · next hq => simp [hq]
      · next hq =>
        have hne : ¬ current = q := fun he => hq he.symm
        rw [ih (proc q).parent rest hrest]
        simp [hne]

theorem childStep_ok
    (hrank : Ranked (parentOf proc) rank) (current : Slot) {fuel : Nat} (hfuel : NPROC ≤ fuel)
    (st : Nat × ChildProcesses) (hst : st.1 < NPROC) (p : Slot) :
    ∃ st', childStep proc current fuel st p = .ok st' ∧ st'.1 ≤ st.1 + 1 := by
  obtain ⟨l, hwalk, _, hlen⟩ := hrank.walkUp_card p
  rw [Fintype.card_fin] at hlen
  have hd := descends_of_walkUp proc current fuel (proc p).parent l (hwalk fuel (by omega))
  unfold childStep
  rw [hd]
  split
  · exact ⟨st, rfl, Nat.le_succ _⟩
  · cases decide (current ∈ l) with
    | false => exact ⟨st, rfl, Nat.le_succ _⟩
    | true =>
      simp only
      exact ⟨_, rfl, Nat.le_refl _⟩

/-- **`child_processes` on a forest** stops, and stores inside the array. -/
theorem childProcesses_forest
    (hrank : Ranked (parentOf proc) rank) (current : Slot) {fuel : Nat} (hfuel : NPROC ≤ fuel)
    (cp : ChildProcesses) : ∃ out, childProcesses proc current fuel cp = .ok out := by
  have key : ∀ (slots : List Slot) (st : Nat × ChildProcesses), st.1 + slots.length ≤ NPROC →
      ∃ out, slots.foldlM (childStep proc current fuel) st = .ok out := by
    intro slots
    induction slots with
    | nil => intro st _; exact ⟨st, rfl⟩
    | cons p slots ih =>
      intro st hst
      rw [List.length_cons] at hst
      obtain ⟨st', hst', hle⟩ := childStep_ok hrank current hfuel st (by omega) p
      rw [List.foldlM_cons, hst']
      exact ih st' (by omega)
  exact key (List.finRange NPROC) (0, cp) (by simp)

/-! ## §3. `set_cpu_quota`. -/

def withPid (proc : Slot → Proc) (pid : UInt32) : Option Slot :=
  (List.finRange NPROC).find? fun p => (proc p).pid = pid

def quotaLoop (proc : Slot → Proc) (current target : Slot) :
    Nat → Option Slot → Except Stop (Option Slot)
  | _, none => .ok none
  | 0, some _ => .error .running
  | fuel + 1, some parent =>
    -- `parent = target_proc->parent`, not `parent->parent`
    if parent ≠ current then quotaLoop proc current target fuel (proc target).parent
    else .ok (some parent)

def withQuota (proc : Slot → Proc) (target : Slot) (quota : UInt32) : Slot → Proc :=
  update proc target
    { proc target with cpuUsage := { (proc target).cpuUsage with quota := quota } }

def setCpuQuota (proc : Slot → Proc) (current : Slot) (fuel : Nat) (pid quota : UInt32) :
    Except Stop (Int × (Slot → Proc)) :=
  match withPid proc pid with
  | none => .ok (-1, proc)
  | some target =>
    match quotaLoop proc current target fuel (some target) with
    | .error e => .error e
    | .ok none => .ok (-1, proc)
    | .ok (some _) => .ok (0, withQuota proc target quota)

/-- `target` has this pid, and is the caller or below it. -/
def InSubtree (proc : Slot → Proc) (current : Slot) (pid : UInt32) (target : Slot) : Prop :=
  withPid proc pid = some target ∧
    (target = current ∨ IsAncestor (parentOf proc) target current)

/-- What set_cpu_quota is for: it ends, and sets the quota exactly inside the
subtree of the caller. -/
def DecidesQuota (proc : Slot → Proc) (current : Slot) (pid quota : UInt32) : Prop :=
  ∃ bound, ∀ fuel, bound ≤ fuel → ∃ r proc', setCpuQuota proc current fuel pid quota = .ok (r, proc') ∧
    (∀ target, InSubtree proc current pid target → r = 0 ∧ proc' = withQuota proc target quota) ∧
    ((∀ target, ¬ InSubtree proc current pid target) → r = -1 ∧ proc' = proc)

/-- The process with this pid, if there is one, is the caller, one of its
children, or has no parent. -/
def NearCaller (proc : Slot → Proc) (current : Slot) (pid : UInt32) : Prop :=
  ∀ target, withPid proc pid = some target →
    target = current ∨ (proc target).parent = none ∨ (proc target).parent = some current

section Quota

variable {proc : Slot → Proc} {current target : Slot} {pid : UInt32} (quota : UInt32)

/-- A parent that is not the caller is looked at again and again. -/
theorem quotaLoop_stuck {parent q : Slot} (hq : q ≠ current)
    (hp : (proc target).parent = some parent) (hparent : parent ≠ current) (fuel : Nat) :
    quotaLoop proc current target fuel (some q) = .error .running := by
  induction fuel generalizing q with
  | zero => rfl
  | succ n ih =>
    rw [quotaLoop, if_pos hq, hp]
    exact ih hparent

theorem setCpuQuota_stuck {parent : Slot} (ht : withPid proc pid = some target)
    (hne : target ≠ current) (hp : (proc target).parent = some parent) (hparent : parent ≠ current)
    (fuel : Nat) : setCpuQuota proc current fuel pid quota = .error .running := by
  unfold setCpuQuota
  rw [ht]
  simp only [quotaLoop_stuck hne hp hparent fuel]

theorem decidesQuota_of_loop {o : Option Slot} (ht : withPid proc pid = some target)
    (hloop : ∀ fuel, quotaLoop proc current target (fuel + 2) (some target) = .ok o)
    (ho : o.isSome ↔ target = current ∨ IsAncestor (parentOf proc) target current) :
    DecidesQuota proc current pid quota := by
  have honly : ∀ p, InSubtree proc current pid p → p = target := fun p hp =>
    Option.some.inj (hp.1.symm.trans ht)
  refine ⟨2, fun fuel hfuel => ?_⟩
  obtain ⟨n, rfl⟩ : ∃ n, fuel = n + 2 := ⟨fuel - 2, by omega⟩
  unfold setCpuQuota
  rw [ht]
  simp only [hloop n]
  cases o with
  | none =>
    refine ⟨_, _, rfl, fun p hp => ?_, fun _ => ⟨rfl, rfl⟩⟩
    obtain rfl := honly p hp
    exact absurd (ho.mpr hp.2) (by simp)
  | some q =>
    refine ⟨_, _, rfl, fun p hp => ?_, fun hno => ?_⟩
    · obtain rfl := honly p hp
      exact ⟨rfl, rfl⟩
    · exact absurd ⟨ht, ho.mp rfl⟩ (hno target)

/-- **When set_cpu_quota works.** It never looks further up than one pointer, and decides exactly if
that is far enough. -/
theorem decidesQuota_iff (proc : Slot → Proc) (current : Slot) (pid quota : UInt32) :
    DecidesQuota proc current pid quota ↔ NearCaller proc current pid := by
  constructor
  · rintro ⟨bound, hends⟩ target ht
    by_contra hfar
    obtain ⟨hne, hfar⟩ := not_or.mp hfar
    obtain ⟨hsome, hparent⟩ := not_or.mp hfar
    obtain ⟨parent, hp⟩ := Option.ne_none_iff_exists'.mp hsome
    obtain ⟨r, proc', hrun, _⟩ := hends bound (Nat.le_refl _)
    rw [setCpuQuota_stuck quota ht hne hp fun he => hparent (by rw [hp, he])] at hrun
    cases hrun
  · intro hnear
    cases ht : withPid proc pid with
    | none =>
      have hno : ∀ p, ¬ InSubtree proc current pid p := fun p hp =>
        absurd (ht.symm.trans hp.1) (by simp)
      refine ⟨0, fun fuel _ => ⟨-1, proc, ?_, fun p hp => absurd hp (hno p), fun _ => ⟨rfl, rfl⟩⟩⟩
      unfold setCpuQuota
      rw [ht]
    | some target =>
      by_cases hcur : target = current
      · refine decidesQuota_of_loop (o := some target) quota ht (fun fuel => ?_) ?_
        · rw [quotaLoop, if_neg (not_not_intro hcur)]
        · simp [hcur]
      · rcases (hnear target ht).resolve_left hcur with hp | hp
        · refine decidesQuota_of_loop (o := none) quota ht (fun fuel => ?_) ?_
          · rw [quotaLoop, if_pos hcur, hp, quotaLoop]
          · have hroot : ¬ IsAncestor (parentOf proc) target current :=
              not_isAncestor_of_root hp current
            simp [hcur, hroot]
        · refine decidesQuota_of_loop (o := some current) quota ht (fun fuel => ?_) ?_
          · rw [quotaLoop, if_pos hcur, hp, quotaLoop, if_neg (not_not_intro rfl)]
          · have habove : IsAncestor (parentOf proc) target current := .single hp
            simp [habove]

/-- Slot 0 has the child 1, which has the child 2. -/
def threeGenerations : Slot → Proc := fun p =>
  if p = 0 then { Proc.init with state := .RUNNING, pid := 1 }
  else if p = 1 then { Proc.init with state := .SLEEPING, pid := 2, parent := some 0 }
  else if p = 2 then { Proc.init with state := .RUNNABLE, pid := 3, parent := some 1 }
  else Proc.init

/-- **A grandchild is out of reach**: the call for its pid never returns. -/
theorem setCpuQuota_grandchild :
    Ranked (parentOf threeGenerations) (fun p => p.val) ∧
      InSubtree threeGenerations 0 3 2 ∧
      ∀ fuel, setCpuQuota threeGenerations 0 fuel 3 5 = .error .running := by
  have hpid : withPid threeGenerations 3 = some 2 := by decide +kernel
  have hone : IsParent (parentOf threeGenerations) 2 1 := by
    show _ = _
    decide
  have htwo : IsParent (parentOf threeGenerations) 1 0 := by
    show _ = _
    decide
  refine ⟨?_, ⟨hpid, .inr (.head hone (.single htwo))⟩, fun fuel => ?_⟩
  · unfold Ranked
    decide
  · exact setCpuQuota_stuck 5 hpid (by decide) hone (by decide) fuel

end Quota

end Xv6.Ancestors
