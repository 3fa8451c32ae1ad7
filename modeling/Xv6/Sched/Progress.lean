/-
  Xv6.Sched.Progress — priority and progress of `min_cpu_usage_scheduler`.

  The equal-usage branch of the scan asks for the deadline but not for the quota, and the
  loop looks for a runnable thread only in the process that the scan selected.
-/
import Xv6.Sched.Selection

namespace Xv6.Sched

/-! ## §1. Under-quota processes against the others. -/

/-- A process over its quota is selected only if no RUNNABLE one is under. -/
def PrefersUnderQuota (proc : Slot → Proc) (quotaEnable : Bool) : Prop :=
  ((∃ j, Eligible proc j ∧ UnderQuota proc j) →
      ∃ p, (scan proc quotaEnable).minCuProc = some p ∧ UnderQuota proc p) ∧
    ∀ p, (scan proc quotaEnable).minCuProc = some p → ¬ UnderQuota proc p →
      ∀ j, (proc j).state = .RUNNABLE → ¬ UnderQuota proc j

/-- Every over-quota process that can be selected has an under-quota one before it, if there is one.
-/
def NoOverQuotaRival (proc : Slot → Proc) (quotaEnable : Bool) : Prop :=
  (∃ j, Eligible proc j ∧ UnderQuota proc j) →
    ∀ p, Contends proc quotaEnable p → ¬ UnderQuota proc p →
      ∃ i, Eligible proc i ∧ UnderQuota proc i ∧ Before proc i p

theorem contends_of_underQuota {proc : Slot → Proc} (quotaEnable : Bool) {p : Slot}
    (hel : Eligible proc p) (hun : UnderQuota proc p) : Contends proc quotaEnable p :=
  contendsOn_of_underQuota (List.mem_finRange p) hel hun

theorem selected_underQuota {proc : Slot → Proc} {quotaEnable : Bool}
    (hrival : NoOverQuotaRival proc quotaEnable)
    (hex : ∃ j, Eligible proc j ∧ UnderQuota proc j) :
    ∃ p, (scan proc quotaEnable).minCuProc = some p ∧ UnderQuota proc p := by
  obtain ⟨j, hel, hun⟩ := hex
  obtain ⟨p, hp⟩ := (scan_exists_iff proc quotaEnable).mpr
    ⟨j, contends_of_underQuota quotaEnable hel hun⟩
  obtain ⟨hc, hfirst⟩ := (scan_selects_iff proc quotaEnable p).mp hp
  refine ⟨p, hp, ?_⟩
  by_contra hover
  obtain ⟨i, hiel, hiun, hip⟩ := hrival ⟨j, hel, hun⟩ p hc hover
  have hne : i ≠ p := fun he => hover (he ▸ hiun)
  have hpi := hfirst i (contends_of_underQuota quotaEnable hiel hiun) hne
  exact Before.irrefl p (hpi.trans hip)

/-- **When the selection respects quotas.** -/
theorem prefersUnderQuota_iff (proc : Slot → Proc) (quotaEnable : Bool) :
    PrefersUnderQuota proc quotaEnable ↔ NoOverQuotaRival proc quotaEnable := by
  constructor
  · rintro ⟨hsel, _⟩ hex p hc hover
    obtain ⟨i, hi, hiun⟩ := hsel hex
    obtain ⟨hci, hfirst⟩ := (scan_selects_iff proc quotaEnable i).mp hi
    have hpi : p ≠ i := fun he => hover (he ▸ hiun)
    exact ⟨i, hci.2.1, hiun, hfirst p hc hpi⟩
  · intro hrival
    refine ⟨selected_underQuota hrival, fun p hp hover j hrun hun => ?_⟩
    -- an under-quota RUNNABLE `j` is below INF, so the first half applies to it
    have hel : Eligible proc j := (eligible_iff proc j).mpr ⟨hrun, hun.lt_INF⟩
    obtain ⟨q, hq, hqun⟩ := selected_underQuota hrival ⟨j, hel, hun⟩
    obtain rfl := Option.some.inj (hp.symm.trans hq)
    exact hover hqun

def runnableProc (sumOfTicks quota deadline : UInt32) : Proc :=
  { Proc.init with
    state := .RUNNABLE
    cpuUsage := { sumOfTicks := sumOfTicks, startTick := 0, quota := quota }
    deadline := deadline }

/-- Slot 1 is under its quota; slot 2 has used as much, has no quota left and
was created by `deadfork`. -/
def tiedTable : Slot → Proc := fun p =>
  if p = 1 then runnableProc 5 10 INF else if p = 2 then runnableProc 5 0 40 else Proc.init

/-- The scan of `tiedTable` selects slot 2 although slot 1 is under its quota. -/
theorem tiedTable_selects_overQuota : ¬ PrefersUnderQuota tiedTable true := by
  intro h
  have hsel : (scan tiedTable true).minCuProc = some 2 := by decide +kernel
  exact h.2 2 hsel (by decide) 1 (by decide) (by decide)

/-! ## §2. Two iterations dispatch something. -/

def HasSomethingToRun (proc : Slot → Proc) (p : Slot) : Prop :=
  ((proc p).threads 0).state = .THREAD_FREE ∨
    ∃ t, ((proc p).threads t).state = .THREAD_RUNNABLE

instance (proc : Slot → Proc) (p : Slot) : Decidable (HasSomethingToRun proc p) :=
  inferInstanceAs (Decidable (_ ∨ _))

def DispatchesWithinTwo (proc : Slot → Proc) (quotaEnable : Bool) : Prop :=
  (minCuIteration proc quotaEnable).1.isSome ∨
    (minCuIteration proc (minCuIteration proc quotaEnable).2).1.isSome

/-- Two iterations dispatch something if some eligible process can run. -/
def MakesProgress (proc : Slot → Proc) (quotaEnable : Bool) : Prop :=
  (∃ p, Eligible proc p ∧ HasSomethingToRun proc p) → DispatchesWithinTwo proc quotaEnable

/-- Some contender that can run comes before every contender that cannot. -/
def NoStuckAhead (proc : Slot → Proc) (quotaEnable : Bool) : Prop :=
  ∃ p, Contends proc quotaEnable p ∧ HasSomethingToRun proc p ∧
    ∀ j, Contends proc quotaEnable j → ¬ HasSomethingToRun proc j → Before proc p j

theorem nextRunnable_isSome_iff (threads : Fin MAX_THREAD → Thread) (k : Nat)
    (next : Fin MAX_THREAD) :
    (nextRunnable threads k next).isSome ↔
      ∃ d : Nat, d < k ∧ (threads (next + 1 + Fin.ofNat MAX_THREAD d)).state = .THREAD_RUNNABLE := by
  induction k generalizing next with
  | zero => simp [nextRunnable]
  | succ k ih =>
    simp only [nextRunnable]
    by_cases hrun : (threads (next + 1)).state = .THREAD_RUNNABLE
    · simp only [if_pos hrun, Option.isSome_some, true_iff]
      exact ⟨0, by omega, by simpa using hrun⟩
    · rw [if_neg hrun, ih]
      have hshift : ∀ d : Nat, next + 1 + Fin.ofNat MAX_THREAD (d + 1)
          = next + 1 + 1 + Fin.ofNat MAX_THREAD d := by
        intro d
        apply Fin.ext
        simp only [MAX_THREAD, Fin.val_add, Fin.val_ofNat, Fin.val_one]
        omega
      constructor
      · rintro ⟨d, hd, hst⟩
        exact ⟨d + 1, by omega, by rw [hshift]; exact hst⟩
      · rintro ⟨d, hd, hst⟩
        cases d with
        | zero => exact absurd (by simpa using hst) hrun
        | succ d => exact ⟨d, by omega, by rw [← hshift]; exact hst⟩

section

variable (proc : Slot → Proc)

include proc

theorem pickThread_isSome_iff (p : Slot) :
    (pickThread (proc p)).isSome ↔ HasSomethingToRun proc p := by
  unfold pickThread HasSomethingToRun
  by_cases hfree : ((proc p).threads 0).state = .THREAD_FREE
  · simp [hfree]
  · rw [if_neg hfree, Option.isSome_map, nextRunnable_isSome_iff]
    simp only [hfree, false_or]
    constructor
    · rintro ⟨d, _, hst⟩
      exact ⟨_, hst⟩
    · rintro ⟨t, hst⟩
      -- MAX_THREAD steps reach every index, starting anywhere
      refine ⟨(t - ((proc p).lastRunningThreadIndex + 1)).val, Fin.isLt _, ?_⟩
      rw [Fin.ofNat_val_eq_self, add_sub_cancel]
      exact hst

theorem minCuIteration_isSome_iff (quotaEnable : Bool) :
    (minCuIteration proc quotaEnable).1.isSome ↔
      ∃ p, (scan proc quotaEnable).minCuProc = some p ∧ HasSomethingToRun proc p := by
  unfold minCuIteration
  cases hsel : (scan proc quotaEnable).minCuProc with
  | none => simp [hsel]
  | some p =>
    simp only [hsel, Option.some.injEq, exists_eq_left', ← pickThread_isSome_iff]
    cases pickThread (proc p) <;> simp

theorem minCuIteration_idle (quotaEnable : Bool)
    (h : (minCuIteration proc quotaEnable).1.isSome = false) :
    (minCuIteration proc quotaEnable).2 = false := by
  unfold minCuIteration at h ⊢
  cases hsel : (scan proc quotaEnable).minCuProc with
  | none => simp [hsel]
  | some p =>
    simp only [hsel] at h ⊢
    cases hpick : pickThread (proc p) with
    | none => rfl
    | some c => simp [hpick] at h

theorem minCuIteration_dispatches_iff (quotaEnable : Bool) :
    (minCuIteration proc quotaEnable).1.isSome ↔ NoStuckAhead proc quotaEnable := by
  rw [minCuIteration_isSome_iff]
  constructor
  · rintro ⟨p, hp, hrun⟩
    obtain ⟨hc, hfirst⟩ := (scan_selects_iff proc quotaEnable p).mp hp
    exact ⟨p, hc, hrun, fun j hj hstuck => hfirst j hj (fun he => hstuck (he ▸ hrun))⟩
  · rintro ⟨p, hc, hrun, hahead⟩
    obtain ⟨q, hq⟩ := (scan_exists_iff proc quotaEnable).mpr ⟨p, hc⟩
    obtain ⟨hcq, hfirst⟩ := (scan_selects_iff proc quotaEnable q).mp hq
    refine ⟨q, hq, ?_⟩
    by_contra hstuck
    have hne : p ≠ q := fun he => hstuck (he ▸ hrun)
    exact Before.irrefl p ((hahead q hcq hstuck).trans (hfirst p hc hne))

end

/-- **When two iterations make progress.** -/
theorem makesProgress_iff (proc : Slot → Proc) (quotaEnable : Bool) :
    MakesProgress proc quotaEnable ↔
      ((∃ p, Eligible proc p ∧ HasSomethingToRun proc p) →
        NoStuckAhead proc quotaEnable ∨ NoStuckAhead proc false) := by
  unfold MakesProgress DispatchesWithinTwo
  refine imp_congr_right fun _ => ?_
  by_cases hfirst : (minCuIteration proc quotaEnable).1.isSome = true
  · simp only [hfirst, true_or, true_iff]
    exact .inl ((minCuIteration_dispatches_iff proc quotaEnable).mp hfirst)
  · -- the first iteration was idle, so the second one runs with the flag off
    have hidle := minCuIteration_idle proc quotaEnable (by simpa using hfirst)
    rw [hidle, minCuIteration_dispatches_iff, minCuIteration_dispatches_iff]

def selfJoinedProc : Proc :=
  { runnableProc 0 10 INF with
    trapframe := some 0x87f6c000
    threads := fun t =>
      if t = 0 then { state := .THREAD_JOINED, trapframe := some 0x87f6c000, id := 1, join := 1 }
      else Thread.zero }

/-- Slot 1 has joined itself; slot 2 could run and has used one tick. -/
def stuckTable : Slot → Proc := fun p =>
  if p = 1 then selfJoinedProc else if p = 2 then runnableProc 1 10 INF else Proc.init

/-- On `stuckTable` both iterations select slot 1 and dispatch nothing. -/
theorem stuckTable_no_progress : ¬ MakesProgress stuckTable true := by
  intro h
  have hready : Eligible stuckTable 2 ∧ HasSomethingToRun stuckTable 2 := by decide
  have hidle1 : minCuIteration stuckTable true = (none, false) := by decide +kernel
  have hidle2 : minCuIteration stuckTable false = (none, false) := by decide +kernel
  rcases h ⟨2, hready⟩ with h1 | h2
  · rw [hidle1] at h1; exact absurd h1 (by decide)
  · rw [hidle1, hidle2] at h2; exact absurd h2 (by decide)

end Xv6.Sched
