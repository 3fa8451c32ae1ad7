/-
  Xv6.Sched.ScanLocks — the locks of the MinCU scan, and its plain cases.

  `replayLocks` runs the recorded operations against the tests of `acquire` and `release`.
-/
import Xv6.Sched.Progress

namespace Xv6.Sched

open Function List

/-! ## §1. Holding locks. -/

/-- `acquire` panics on a lock that this CPU holds, `release` on one it does
not hold. -/
def lockStep (held : Slot → Bool) : LockOp → Option (Slot → Bool)
  | .acquire p => if held p then none else some (update held p true)
  | .release p => if held p then some (update held p false) else none

def replayLocks (held : Slot → Bool) : List LockOp → Option (Slot → Bool)
  | [] => some held
  | op :: ops => (lockStep held op).bind fun held => replayLocks held ops

theorem replayLocks_append (held : Slot → Bool) (l k : List LockOp) :
    replayLocks held (l ++ k) = (replayLocks held l).bind fun h => replayLocks h k := by
  induction l generalizing held with
  | nil => rfl
  | cons op l ih =>
    simp only [cons_append, replayLocks]
    cases lockStep held op with
    | none => rfl
    | some h => exact ih h

/-- The lock of the selected process and no other. -/
def onlyLock (selected : Option Slot) : Slot → Bool := fun p => decide (selected = some p)

variable {selected : Option Slot} {p : Slot}

section

variable (hp : selected ≠ some p)

include hp

theorem lockStep_acquire_new : lockStep (onlyLock selected) (.acquire p) =
      some (update (onlyLock selected) p true) := by
  simp [lockStep, onlyLock, hp]

theorem replayLocks_passOver :
    replayLocks (onlyLock selected) [.acquire p, .release p] = some (onlyLock selected) := by
  have hback : update (onlyLock selected) p false = onlyLock selected := by
    apply update_eq_self_iff.mpr
    simp [onlyLock, hp]
  rw [replayLocks, lockStep_acquire_new hp, Option.bind_some, replayLocks, lockStep,
    if_pos (update_self ..)]
  simp [replayLocks, hback]

theorem replayLocks_takeOver :
    replayLocks (onlyLock selected) (.acquire p :: (selected.map LockOp.release).toList) =
      some (onlyLock (some p)) := by
  rw [replayLocks, lockStep_acquire_new hp, Option.bind_some]
  cases selected with
  | none =>
    show some _ = some _
    congr 1
    funext q
    by_cases hq : q = p
    · simp [hq, onlyLock]
    · simp [hq, onlyLock, Ne.symm hq]
  | some old =>
    have hold : old ≠ p := fun h => hp (by rw [h])
    have hheld : update (onlyLock (some old)) p true old = true := by
      simp [hold, onlyLock]
    show (lockStep _ (.release old)).bind _ = _
    rw [lockStep, if_pos hheld]
    show some _ = some _
    congr 1
    funext q
    by_cases hqo : q = old
    · simp [hqo, onlyLock, hold.symm]
    · by_cases hq : q = p
      · simp [hq, onlyLock, hold.symm]
      · simp [hqo, hq, onlyLock, Ne.symm hqo, Ne.symm hq]

end

/-! ## §2. The locks during the scan. -/

theorem scanStep_locks (proc : Slot → Proc) (s : ScanState) (p : Slot) :
    (scanStep proc s p).minCuProc = s.minCuProc ∧
        (scanStep proc s p).locks = s.locks ++ [.acquire p, .release p] ∨
      (scanStep proc s p).minCuProc = some p ∧ (scanStep proc s p).locks =
          s.locks ++ .acquire p :: (s.minCuProc.map LockOp.release).toList := by
  unfold scanStep
  dsimp only
  by_cases hless : (proc p).state = .RUNNABLE ∧ (proc p).cpuUsage.sumOfTicks < s.minCu
  · rw [if_pos hless]
    by_cases hskip : (overQuota (proc p) && s.quotaEnable) = true
    · rw [if_pos hskip]
      exact .inl ⟨rfl, by simp⟩
    · rw [if_neg hskip]
      exact .inr ⟨rfl, by simp⟩
  · rw [if_neg hless]
    by_cases heq : (proc p).state = .RUNNABLE ∧ (proc p).cpuUsage.sumOfTicks = s.minCu
    · rw [if_pos heq]
      cases hq : s.minCuProc with
      | none => exact .inl ⟨rfl, by simp⟩
      | some q =>
        by_cases hdl : (proc p).deadline < (proc q).deadline
        · simp only [if_pos hdl]
          exact .inr ⟨trivial, by simp⟩
        · simp only [if_neg hdl]
          exact .inl ⟨trivial, by simp⟩
    · rw [if_neg heq]
      exact .inl ⟨rfl, by simp⟩

/-- How often the lock of `p` has been given back. -/
def releases (locks : List LockOp) (p : Slot) : Nat := locks.count (.release p)

structure LockInv (l : List Slot) (s : ScanState) : Prop where
  selected_mem : ∀ p, s.minCuProc = some p → p ∈ l
  held : replayLocks (fun _ => false) s.locks = some (onlyLock s.minCuProc)
  released : ∀ p, releases s.locks p = if p ∈ l ∧ s.minCuProc ≠ some p then 1 else 0

theorem releases_passOver (locks : List LockOp) (p q : Slot) :
    releases (locks ++ [.acquire p, .release p]) q = releases locks q + if q = p then 1 else 0 := by
  by_cases hq : q = p
  · simp [releases, hq]
  · simp [releases, hq, Ne.symm hq]

theorem releases_takeOver (locks : List LockOp) (selected : Option Slot) (p q : Slot) :
    releases (locks ++ .acquire p :: (selected.map LockOp.release).toList) q =
      releases locks q + if selected = some q then 1 else 0 := by
  cases selected with
  | none => simp [releases]
  | some old =>
    by_cases hq : old = q
    · simp [releases, hq]
    · simp [releases, hq]

/-- **One slot of the scan keeps one lock.** -/
theorem scanStep_lockInv (proc : Slot → Proc) {l : List Slot} {s : ScanState}
    (hp : p ∉ l) (h : LockInv l s) : LockInv (l ++ [p]) (scanStep proc s p) := by
  have hne : s.minCuProc ≠ some p := fun hsel => hp (h.selected_mem p hsel)
  rcases scanStep_locks proc s p with ⟨hsel, hlocks⟩ | ⟨hsel, hlocks⟩
  · constructor
    · intro q hq
      rw [hsel] at hq
      exact mem_append_left _ (h.selected_mem q hq)
    · rw [hlocks, replayLocks_append, h.held, hsel]
      exact replayLocks_passOver hne
    · intro q
      rw [hlocks, releases_passOver, h.released, hsel]
      by_cases hq : q = p
      · simp [hq, hp, hne]
      · simp [hq]
  · constructor
    · intro q hq
      rw [hsel] at hq
      obtain rfl := Option.some.inj hq
      simp
    · rw [hlocks, replayLocks_append, h.held, hsel]
      exact replayLocks_takeOver hne
    · intro q
      rw [hlocks, releases_takeOver, h.released, hsel]
      by_cases hq : q = p
      · -- the new selection: never released
        rw [hq]
        simp [hp, hne]
      · by_cases hold : s.minCuProc = some q
        · -- the old selection: released now
          simp [hold, h.selected_mem q hold, Ne.symm hq]
        · simp [hold, hq, Ne.symm hq]

theorem foldl_scanStep_lockInv (proc : Slot → Proc) (quotaEnable : Bool) (l : List Slot)
    (hl : l.Nodup) : LockInv l (l.foldl (scanStep proc) (scanInit quotaEnable)) := by
  induction l using List.reverseRecOn with
  | nil =>
    constructor
    · intro p hp
      exact absurd hp (by simp [scanInit])
    · rfl
    · intro p
      simp [releases, scanInit]
  | append_singleton l p ih =>
    obtain ⟨hl', _, hdisj⟩ := nodup_append.mp hl
    rw [foldl_append]
    exact scanStep_lockInv proc (fun hmem => hdisj p hmem p (by simp) rfl) (ih hl')

theorem scan_lockInv (proc : Slot → Proc) (quotaEnable : Bool) :
    LockInv (List.finRange NPROC) (scan proc quotaEnable) :=
  foldl_scanStep_lockInv proc quotaEnable _ (nodup_finRange NPROC)

/-! ## §3. The selection where quotas do not matter. -/

/-- Every RUNNABLE process is under its quota, or the test is off and none is. -/
def QuotaNeutral (proc : Slot → Proc) (quotaEnable : Bool) : Prop :=
  (∀ p, (proc p).state = .RUNNABLE → UnderQuota proc p) ∨
    quotaEnable = false ∧ ∀ p, (proc p).state = .RUNNABLE → ¬ UnderQuota proc p

instance (proc : Slot → Proc) (quotaEnable : Bool) : Decidable (QuotaNeutral proc quotaEnable) :=
  inferInstanceAs (Decidable (_ ∨ _))

theorem contends_iff_eligible {proc : Slot → Proc} {quotaEnable : Bool}
    (h : QuotaNeutral proc quotaEnable) (p : Slot) :
    Contends proc quotaEnable p ↔ Eligible proc p := by
  constructor
  · intro hc
    exact hc.2.1
  · intro hel
    rcases h with hunder | ⟨hoff, hover⟩
    · exact contendsOn_of_underQuota (mem_finRange p) hel (hunder p hel.1)
    · -- nobody can turn the test on
      refine contendsOn_of_not_gated ?_ (mem_finRange p) hel
      rintro (hon | ⟨f, _, hfel, hfun, _⟩)
      · rw [hoff] at hon
        exact absurd hon (by decide)
      · exact hover f hfel.1 hfun

/-- The first of the processes that `among` admits. -/
def IsFirst (proc : Slot → Proc) (among : Slot → Prop) (p : Slot) : Prop :=
  among p ∧ ∀ j, among j → j ≠ p → Before proc p j

/-- **What the scan selects, and the locks it leaves.** Where quotas do not matter: the eligible
process with the least (usage, deadline, index). In every case the CPU ends up with the lock of the
selected process alone. -/
theorem scan_least_and_lock (proc : Slot → Proc) (quotaEnable : Bool) :
    (QuotaNeutral proc quotaEnable →
      (∀ p, (scan proc quotaEnable).minCuProc = some p ↔ IsFirst proc (Eligible proc) p) ∧
        ((scan proc quotaEnable).minCuProc = none ↔ ∀ p, ¬ Eligible proc p)) ∧
    replayLocks (fun _ => false) (scan proc quotaEnable).locks =
      some (onlyLock (scan proc quotaEnable).minCuProc) ∧
    ∀ p, releases (scan proc quotaEnable).locks p =
      if (scan proc quotaEnable).minCuProc = some p then 0 else 1 := by
  have hlocks := scan_lockInv proc quotaEnable
  refine ⟨fun hneutral => ⟨fun p => ?_, ?_⟩, hlocks.held, fun p => ?_⟩
  · rw [scan_selects_iff, IsFirst]
    simp only [contends_iff_eligible hneutral]
  · have hex := scan_exists_iff proc quotaEnable
    simp only [contends_iff_eligible hneutral] at hex
    rw [← not_exists, ← hex]
    cases (scan proc quotaEnable).minCuProc with
    | none => simp
    | some q => simp
  · rw [hlocks.released]
    by_cases hsel : (scan proc quotaEnable).minCuProc = some p
    · simp [hsel]
    · simp [hsel, List.mem_finRange]

/-- Slots 1 and 2 are tied on usage, slot 3 has used more. -/
def deadlineTable : Slot → Proc := fun p =>
  if p = 1 then runnableProc 5 10 INF else if p = 2 then runnableProc 5 10 40
  else if p = 3 then runnableProc 7 10 0 else Proc.init

/-- On `deadlineTable` the earlier deadline decides. -/
theorem scan_least_and_lock_deadlineTable :
    QuotaNeutral deadlineTable true ∧ IsFirst deadlineTable (Eligible deadlineTable) 2 := by
  have hneutral : QuotaNeutral deadlineTable true := by decide
  have hsel : (scan deadlineTable true).minCuProc = some 2 := by decide +kernel
  exact ⟨hneutral, (((scan_least_and_lock deadlineTable true).1 hneutral).1 2).mp hsel⟩

end Xv6.Sched
