/-
  Xv6.Sched.Selection — what the scan of `min_cpu_usage_scheduler` selects.

  `Before` is the order on the processes that can be selected at all, and the scan returns
  the first.
-/
import Xv6.Sched.MinCpuUsage

namespace Xv6.Sched

open List

/-! ## §1. The order and the contenders. -/

def usage (proc : Slot → Proc) (p : Slot) : Nat := (proc p).cpuUsage.sumOfTicks.toNat

def deadline (proc : Slot → Proc) (p : Slot) : Nat := (proc p).deadline.toNat

/-- RUNNABLE and below INF, the initial value of `min_cu`. -/
def Eligible (proc : Slot → Proc) (p : Slot) : Prop :=
  (proc p).state = .RUNNABLE ∧ (proc p).cpuUsage.sumOfTicks < INF

def UnderQuota (proc : Slot → Proc) (p : Slot) : Prop :=
  (proc p).cpuUsage.sumOfTicks < (proc p).cpuUsage.quota

instance (proc : Slot → Proc) (p : Slot) : Decidable (Eligible proc p) :=
  inferInstanceAs (Decidable (_ ∧ _))

instance (proc : Slot → Proc) (p : Slot) : Decidable (UnderQuota proc p) :=
  inferInstanceAs (Decidable (_ < _))

/-- Less usage first, then the earlier deadline, then the lower index. -/
def Before (proc : Slot → Proc) (p q : Slot) : Prop :=
  usage proc p < usage proc q ∨
    usage proc p = usage proc q ∧
      (deadline proc p < deadline proc q ∨ deadline proc p = deadline proc q ∧ p.val < q.val)

instance (proc : Slot → Proc) (p q : Slot) : Decidable (Before proc p q) :=
  inferInstanceAs (Decidable (_ ∨ _))

/-- The quota test is on at the end of the scan: from the start, or turned on by an under-quota
process with less usage than all before it. -/
def GatedOn (proc : Slot → Proc) (l : List Slot) (quotaEnable : Bool) : Prop :=
  quotaEnable = true ∨
    ∃ f ∈ l, Eligible proc f ∧ UnderQuota proc f ∧
      ∀ j ∈ l, j < f → Eligible proc j → usage proc f < usage proc j

/-- While the quota test is on, a process over its quota gets in only through the equal-usage
branch, behind an under-quota one of the same usage. -/
def ContendsOn (proc : Slot → Proc) (l : List Slot) (quotaEnable : Bool) (p : Slot) : Prop :=
  p ∈ l ∧ Eligible proc p ∧
    (GatedOn proc l quotaEnable →
      UnderQuota proc p ∨
        ∃ j ∈ l, j < p ∧ Eligible proc j ∧ UnderQuota proc j ∧ usage proc j = usage proc p)

def Contends (proc : Slot → Proc) (quotaEnable : Bool) (p : Slot) : Prop :=
  ContendsOn proc (List.finRange NPROC) quotaEnable p

variable {proc : Slot → Proc}

theorem Before.trans {p q r : Slot}
    (hpq : Before proc p q) (hqr : Before proc q r) : Before proc p r := by
  unfold Before at *
  omega

theorem Before.irrefl (p : Slot) : ¬ Before proc p p := by
  unfold Before
  omega

theorem Before.usage_le {p q : Slot} (h : Before proc p q) : usage proc p ≤ usage proc q := by
  unfold Before at h
  omega

/-! ## §2. The code's tests in these terms. -/

section

variable (proc : Slot → Proc)

theorem usage_lt_iff (p : Slot) (m : UInt32) :
    (proc p).cpuUsage.sumOfTicks < m ↔ usage proc p < m.toNat := UInt32.lt_iff_toNat_lt

theorem usage_eq_iff (p : Slot) (m : UInt32) :
    (proc p).cpuUsage.sumOfTicks = m ↔ usage proc p = m.toNat := UInt32.toNat_inj.symm

theorem deadline_lt_iff (p q : Slot) :
    (proc p).deadline < (proc q).deadline ↔ deadline proc p < deadline proc q :=
  UInt32.lt_iff_toNat_lt

theorem overQuota_iff (p : Slot) : overQuota (proc p) = true ↔ ¬ UnderQuota proc p := by
  simp only [overQuota, UnderQuota, decide_eq_true_eq, UInt32.not_lt]

theorem eligible_iff (p : Slot) :
    Eligible proc p ↔ (proc p).state = .RUNNABLE ∧ usage proc p < INF.toNat := by
  rw [Eligible, usage_lt_iff]

end

theorem UnderQuota.lt_INF {p : Slot} (h : UnderQuota proc p) : usage proc p < INF.toNat := by
  have hlt : usage proc p < (proc p).cpuUsage.quota.toNat := UInt32.lt_iff_toNat_lt.mp h
  have hq : (proc p).cpuUsage.quota.toNat < 2 ^ 32 := (proc p).cpuUsage.quota.toNat_lt
  have hINF : INF.toNat = 2 ^ 32 - 1 := rfl
  omega

/-! ## §3. One step of the scan. -/

/-- What the locals of the scan mean after the slots of `l`. -/
structure ScanInv (proc : Slot → Proc) (quotaEnable : Bool) (l : List Slot) (s : ScanState) :
    Prop where
  gate : s.quotaEnable = true ↔ GatedOn proc l quotaEnable
  none_selected : s.minCuProc = none →
    s.minCu = INF ∧ ∀ j, ¬ ContendsOn proc l quotaEnable j
  selected : ∀ p, s.minCuProc = some p →
    s.minCu.toNat = usage proc p ∧ ContendsOn proc l quotaEnable p ∧
      ∀ j, ContendsOn proc l quotaEnable j → j ≠ p → Before proc p j

section Step

variable {proc : Slot → Proc} {quotaEnable : Bool} {l : List Slot} {s : ScanState} {p : Slot}

theorem ScanInv.minCu_le (h : ScanInv proc quotaEnable l s) {j : Slot}
    (hj : ContendsOn proc l quotaEnable j) : s.minCu.toNat ≤ usage proc j := by
  cases hsel : s.minCuProc with
  | none => exact absurd hj ((h.none_selected hsel).2 j)
  | some q =>
    obtain ⟨hcu, _, hleast⟩ := h.selected q hsel
    by_cases hjq : j = q
    · rw [hcu, hjq]
    · rw [hcu]
      exact (hleast j hj hjq).usage_le

section

variable (hlt : ∀ j ∈ l, j < p)

include hlt

theorem gatedOn_append : GatedOn proc (l ++ [p]) quotaEnable ↔
      GatedOn proc l quotaEnable ∨ (Eligible proc p ∧ UnderQuota proc p ∧
          ∀ j ∈ l, Eligible proc j → usage proc p < usage proc j) := by
  constructor
  · rintro (hq | ⟨f, hf, hel, hun, hmin⟩)
    · exact .inl (.inl hq)
    · rcases mem_append.mp hf with hf | hf
      · exact .inl (.inr ⟨f, hf, hel, hun,
          fun j hj => hmin j (mem_append_left _ hj)⟩)
      · obtain rfl := mem_singleton.mp hf
        exact .inr ⟨hel, hun, fun j hj => hmin j (mem_append_left _ hj) (hlt j hj)⟩
  · rintro ((hq | ⟨f, hf, hel, hun, hmin⟩) | ⟨hel, hun, hmin⟩)
    · exact .inl hq
    · refine .inr ⟨f, mem_append_left _ hf, hel, hun, fun j hj hjf => ?_⟩
      rcases mem_append.mp hj with hj | hj
      · exact hmin j hj hjf
      · obtain rfl := mem_singleton.mp hj
        exact absurd (hlt f hf) (not_lt.mpr hjf.le)
    · refine .inr ⟨p, by simp, hel, hun, fun j hj hjp => ?_⟩
      rcases mem_append.mp hj with hj | hj
      · exact hmin j hj
      · obtain rfl := mem_singleton.mp hj
        exact absurd hjp (lt_irrefl _)

theorem exists_underQuota_append {i : Slot} (hi : i ∈ l) :
    (∃ j ∈ l ++ [p], j < i ∧ Eligible proc j ∧ UnderQuota proc j ∧ usage proc j = usage proc i) ↔
      ∃ j ∈ l, j < i ∧ Eligible proc j ∧ UnderQuota proc j ∧ usage proc j = usage proc i := by
  constructor
  · rintro ⟨j, hj, hji, hrest⟩
    rcases mem_append.mp hj with hj | hj
    · exact ⟨j, hj, hji, hrest⟩
    · obtain rfl := mem_singleton.mp hj
      exact absurd (hlt i hi) (not_lt.mpr hji.le)
  · rintro ⟨j, hj, hrest⟩
    exact ⟨j, mem_append_left _ hj, hrest⟩

theorem contendsOn_of_append {i : Slot} (hi : i ∈ l)
    (h : ContendsOn proc (l ++ [p]) quotaEnable i) : ContendsOn proc l quotaEnable i := by
  refine ⟨hi, h.2.1, fun hg => ?_⟩
  have hc := h.2.2 ((gatedOn_append hlt).mpr (.inl hg))
  rwa [exists_underQuota_append hlt hi] at hc

theorem contendsOn_append_of (hgate : GatedOn proc (l ++ [p]) quotaEnable ↔ GatedOn proc l quotaEnable)
    {i : Slot} (h : ContendsOn proc l quotaEnable i) :
    ContendsOn proc (l ++ [p]) quotaEnable i := by
  refine ⟨mem_append_left _ h.1, h.2.1, fun hg => ?_⟩
  rw [exists_underQuota_append hlt h.1]
  exact h.2.2 (hgate.mp hg)

theorem contendsOn_append_new : ContendsOn proc (l ++ [p]) quotaEnable p ↔
      Eligible proc p ∧ (GatedOn proc (l ++ [p]) quotaEnable → UnderQuota proc p ∨
            ∃ j ∈ l, Eligible proc j ∧ UnderQuota proc j ∧ usage proc j = usage proc p) := by
  have hex : (∃ j ∈ l ++ [p], j < p ∧ Eligible proc j ∧ UnderQuota proc j ∧
        usage proc j = usage proc p) ↔
      ∃ j ∈ l, Eligible proc j ∧ UnderQuota proc j ∧ usage proc j = usage proc p := by
    constructor
    · rintro ⟨j, hj, hjp, hrest⟩
      rcases mem_append.mp hj with hj | hj
      · exact ⟨j, hj, hrest⟩
      · obtain rfl := mem_singleton.mp hj
        exact absurd hjp (lt_irrefl _)
    · rintro ⟨j, hj, hrest⟩
      exact ⟨j, mem_append_left _ hj, hlt j hj, hrest⟩
  rw [ContendsOn, hex]
  simp

end

theorem contendsOn_of_underQuota (hp : p ∈ l) (hel : Eligible proc p) (hun : UnderQuota proc p) :
    ContendsOn proc l quotaEnable p := ⟨hp, hel, fun _ => .inl hun⟩

theorem contendsOn_of_not_gated (hg : ¬ GatedOn proc l quotaEnable) (hp : p ∈ l)
    (hel : Eligible proc p) : ContendsOn proc l quotaEnable p := ⟨hp, hel, fun h => absurd h hg⟩

theorem ContendsOn.exists_underQuota (h : ContendsOn proc l quotaEnable p)
    (hg : GatedOn proc l quotaEnable) :
    ∃ j ∈ l, Eligible proc j ∧ UnderQuota proc j ∧ usage proc j = usage proc p := by
  rcases h.2.2 hg with hun | ⟨j, hj, _, hel, hun, heq⟩
  · exact ⟨p, h.1, h.2.1, hun, rfl⟩
  · exact ⟨j, hj, hel, hun, heq⟩

theorem ScanInv.extend (h : ScanInv proc quotaEnable l s) (hlt : ∀ j ∈ l, j < p)
    (hgate : GatedOn proc (l ++ [p]) quotaEnable ↔ GatedOn proc l quotaEnable)
    (hp : ContendsOn proc (l ++ [p]) quotaEnable p → ∃ q, s.minCuProc = some q ∧ Before proc q p)
    (locks : List LockOp) :
    ScanInv proc quotaEnable (l ++ [p]) { s with locks := locks } := by
  constructor
  · exact h.gate.trans hgate.symm
  · intro hnone
    obtain ⟨hcu, hno⟩ := h.none_selected hnone
    refine ⟨hcu, fun j hj => ?_⟩
    rcases mem_append.mp hj.1 with hjl | hjl
    · exact hno j (contendsOn_of_append hlt hjl hj)
    · obtain rfl := mem_singleton.mp hjl
      obtain ⟨q, hq, _⟩ := hp hj
      exact absurd (hnone.symm.trans hq) (by simp)
  · intro q hq
    obtain ⟨hcu, hc, hleast⟩ := h.selected q hq
    refine ⟨hcu, contendsOn_append_of hlt hgate hc, fun j hj hjq => ?_⟩
    rcases mem_append.mp hj.1 with hjl | hjl
    · exact hleast j (contendsOn_of_append hlt hjl hj) hjq
    · obtain rfl := mem_singleton.mp hjl
      obtain ⟨q', hq', hb⟩ := hp hj
      obtain rfl := Option.some.inj (hq.symm.trans hq')
      exact hb

theorem ScanInv.select {s' : ScanState} (hlt : ∀ j ∈ l, j < p)
    (hgate : s'.quotaEnable = true ↔ GatedOn proc (l ++ [p]) quotaEnable)
    (hsel : s'.minCuProc = some p) (hcu : s'.minCu.toNat = usage proc p)
    (hc : ContendsOn proc (l ++ [p]) quotaEnable p)
    (hb : ∀ j, ContendsOn proc l quotaEnable j → Before proc p j) :
    ScanInv proc quotaEnable (l ++ [p]) s' := by
  constructor
  · exact hgate
  · intro hnone
    exact absurd (hnone.symm.trans hsel) (by simp)
  · intro q hq
    obtain rfl := Option.some.inj (hsel.symm.trans hq)
    refine ⟨hcu, hc, fun j hj hjp => ?_⟩
    rcases mem_append.mp hj.1 with hjl | hjl
    · exact hb j (contendsOn_of_append hlt hjl hj)
    · exact absurd (mem_singleton.mp hjl) hjp

section

variable (h : ScanInv proc quotaEnable l s) (hlt : ∀ j ∈ l, j < p)

include h hlt

theorem ScanInv.gate_fixed (hp : Eligible proc p → s.minCu.toNat ≤ usage proc p) :
    GatedOn proc (l ++ [p]) quotaEnable ↔ GatedOn proc l quotaEnable := by
  rw [gatedOn_append hlt]
  refine ⟨?_, .inl⟩
  rintro (hg | ⟨hel, _, hmin⟩)
  · exact hg
  · have hge := hp hel
    have hlt' := ((eligible_iff proc p).mp hel).2
    cases hsel : s.minCuProc with
    | none =>
      rw [(h.none_selected hsel).1] at hge
      omega
    | some q =>
      obtain ⟨hcu, hc, _⟩ := h.selected q hsel
      have := hmin q hc.1 hc.2.1
      omega

theorem ScanInv.step_less (hrun : (proc p).state = .RUNNABLE) (hless : usage proc p < s.minCu.toNat)
    (hpass : ¬ (overQuota (proc p) && s.quotaEnable) = true) {s' : ScanState}
    (hgate : s'.quotaEnable = if overQuota (proc p) then s.quotaEnable else true)
    (hsel : s'.minCuProc = some p) (hcu : s'.minCu = (proc p).cpuUsage.sumOfTicks) :
    ScanInv proc quotaEnable (l ++ [p]) s' := by
  have hINF : s.minCu.toNat ≤ INF.toNat := by
    have h32 : s.minCu.toNat < 2 ^ 32 := s.minCu.toNat_lt
    have hmax : INF.toNat = 2 ^ 32 - 1 := rfl
    omega
  have hel : Eligible proc p := (eligible_iff proc p).mpr ⟨hrun, by omega⟩
  have hb : ∀ j, ContendsOn proc l quotaEnable j → Before proc p j :=
    fun j hj => .inl (lt_of_lt_of_le hless (h.minCu_le hj))
  refine ScanInv.select hlt ?_ hsel (by rw [hcu]; rfl) ?_ hb
  · -- the flag after the branch
    rw [hgate, gatedOn_append hlt]
    by_cases hun : UnderQuota proc p
    · have hov : overQuota (proc p) = false := by
        rw [← Bool.not_eq_true, overQuota_iff]; exact not_not.mpr hun
      simp only [hov, Bool.false_eq_true, if_false, true_iff]
      by_cases hg : GatedOn proc l quotaEnable
      · exact .inl hg
      · exact .inr ⟨hel, hun, fun j hj hjel =>
          lt_of_lt_of_le hless (h.minCu_le (contendsOn_of_not_gated hg hj hjel))⟩
    · have hov : overQuota (proc p) = true := (overQuota_iff proc p).mpr hun
      simp only [hov, if_true, h.gate, hun, false_and, and_false, or_false]
  · -- `p` contends
    by_cases hun : UnderQuota proc p
    · exact contendsOn_of_underQuota (by simp) hel hun
    · have hov : overQuota (proc p) = true := (overQuota_iff proc p).mpr hun
      have hoff : ¬ GatedOn proc l quotaEnable := by
        rw [← h.gate]; simpa [hov] using hpass
      refine contendsOn_of_not_gated (fun hg => ?_) (by simp) hel
      rcases (gatedOn_append hlt).mp hg with hg | ⟨_, hu, _⟩
      · exact hoff hg
      · exact hun hu

theorem ScanInv.step_equal (hrun : (proc p).state = .RUNNABLE) (heq : usage proc p = s.minCu.toNat) {q : Slot}
    (hq : s.minCuProc = some q) (hdl : deadline proc p < deadline proc q)
    (locks : List LockOp) :
    ScanInv proc quotaEnable (l ++ [p]) { s with minCuProc := some p, locks := locks } := by
  obtain ⟨hcu, hc, hleast⟩ := h.selected q hq
  have hgate := h.gate_fixed hlt (fun _ => heq.ge)
  have hbq : Before proc p q := Or.inr ⟨by omega, .inl hdl⟩
  have hel : Eligible proc p := by
    have := ((eligible_iff proc q).mp hc.2.1).2
    exact (eligible_iff proc p).mpr ⟨hrun, by omega⟩
  refine ScanInv.select hlt (h.gate.trans hgate.symm) rfl heq.symm ?_ ?_
  · refine (contendsOn_append_new hlt).mpr ⟨hel, fun hg => .inr ?_⟩
    obtain ⟨j, hj, hjel, hun, hju⟩ := hc.exists_underQuota (hgate.mp hg)
    exact ⟨j, hj, hjel, hun, by omega⟩
  · intro j hj
    by_cases hjq : j = q
    · rw [hjq]; exact hbq
    · exact hbq.trans (hleast j hj hjq)

end

/-- **One slot of the scan keeps the meaning of its locals.** -/
theorem scanStep_inv (hlt : ∀ j ∈ l, j < p) (h : ScanInv proc quotaEnable l s) :
    ScanInv proc quotaEnable (l ++ [p]) (scanStep proc s p) := by
  unfold scanStep
  simp only [usage_lt_iff, usage_eq_iff, deadline_lt_iff]
  by_cases hless : (proc p).state = .RUNNABLE ∧ usage proc p < s.minCu.toNat
  · rw [if_pos hless]
    by_cases hskip : (overQuota (proc p) && s.quotaEnable) = true
    · -- over quota while the test is on: passed over
      rw [if_pos hskip]
      obtain ⟨hov, hon⟩ := Bool.and_eq_true _ _ ▸ hskip
      have hun : ¬ UnderQuota proc p := (overQuota_iff proc p).mp hov
      have hg : GatedOn proc l quotaEnable := h.gate.mp hon
      refine h.extend hlt ?_ (fun hc => ?_) _
      · rw [gatedOn_append hlt]; simp [hun]
      · have hg' : GatedOn proc (l ++ [p]) quotaEnable := (gatedOn_append hlt).mpr (.inl hg)
        rcases ((contendsOn_append_new hlt).mp hc).2 hg' with hu | ⟨j, hj, hjel, hju, heq⟩
        · exact absurd hu hun
        · have := h.minCu_le (contendsOn_of_underQuota hj hjel hju)
          omega
    · rw [if_neg hskip]
      exact h.step_less hlt hless.1 hless.2 hskip rfl rfl rfl
  · rw [if_neg hless]
    have hge : Eligible proc p → s.minCu.toNat ≤ usage proc p := by
      intro hel
      by_contra hlt'
      exact hless ⟨hel.1, by omega⟩
    have hgate := h.gate_fixed hlt hge
    by_cases heq : (proc p).state = .RUNNABLE ∧ usage proc p = s.minCu.toNat
    · rw [if_pos heq]
      cases hq : s.minCuProc with
      | none =>
        -- `min_cu` is still INF, so `p` is at INF and not eligible
        have hkeep := h.extend hlt hgate (fun hc => by
          have hcu := (h.none_selected hq).1
          have := ((eligible_iff proc p).mp hc.2.1).2
          rw [hcu] at heq
          omega) (s.locks ++ [.acquire p] ++ [.release p])
        rwa [hq] at hkeep
      | some q =>
        by_cases hdl : deadline proc p < deadline proc q
        · simp only [if_pos hdl]
          exact h.step_equal hlt heq.1 heq.2 hq hdl _
        · simp only [if_neg hdl]
          obtain ⟨hcu, hc, _⟩ := h.selected q hq
          have hqp : q.val < p.val := hlt q hc.1
          have hkeep := h.extend hlt hgate (fun _ => ⟨q, hq, by unfold Before; omega⟩)
            (s.locks ++ [.acquire p] ++ [.release p])
          rwa [hq] at hkeep
    · rw [if_neg heq]
      refine h.extend hlt hgate (fun hc => ?_) _
      have hp := (eligible_iff proc p).mp hc.2.1
      have hge := hge hc.2.1
      have hne : usage proc p ≠ s.minCu.toNat := fun he => heq ⟨hp.1, he⟩
      cases hq : s.minCuProc with
      | none =>
        rw [(h.none_selected hq).1] at hge hne
        omega
      | some q => exact ⟨q, rfl, .inl (by have := (h.selected q hq).1; omega)⟩

end Step

/-! ## §4. The whole scan. -/

section

variable (proc : Slot → Proc) (quotaEnable : Bool)

theorem scanInv_init : ScanInv proc quotaEnable [] (scanInit quotaEnable) := by
  constructor
  · simp [scanInit, GatedOn]
  · intro _
    exact ⟨rfl, fun j hj => by simpa using hj.1⟩
  · intro p hp
    exact absurd hp (by simp [scanInit])

/-- The locals of the scan mean what they should after any ascending list of slots. -/
theorem foldl_scanStep_inv (l : List Slot) (hl : l.Pairwise (· < ·)) :
    ScanInv proc quotaEnable l (l.foldl (scanStep proc) (scanInit quotaEnable)) := by
  induction l using List.reverseRecOn with
  | nil => exact scanInv_init proc quotaEnable
  | append_singleton l p ih =>
    obtain ⟨hl', _, hlt⟩ := pairwise_append.mp hl
    rw [foldl_append]
    exact scanStep_inv (fun j hj => hlt j hj p (by simp)) (ih hl')

theorem scan_inv : ScanInv proc quotaEnable (List.finRange NPROC) (scan proc quotaEnable) :=
  foldl_scanStep_inv proc quotaEnable _ (pairwise_lt_finRange NPROC)

/-- **The scan selects the first contender.** -/
theorem scan_selects_iff (p : Slot) :
    (scan proc quotaEnable).minCuProc = some p ↔ Contends proc quotaEnable p ∧
        ∀ j, Contends proc quotaEnable j → j ≠ p → Before proc p j := by
  have h := scan_inv proc quotaEnable
  constructor
  · exact fun hp => (h.selected p hp).2
  · rintro ⟨hc, hleast⟩
    cases hsel : (scan proc quotaEnable).minCuProc with
    | none => exact absurd hc ((h.none_selected hsel).2 p)
    | some q =>
      obtain ⟨_, hcq, hq⟩ := h.selected q hsel
      by_contra hne
      have hqp : q ≠ p := fun he => hne (by rw [he])
      exact Before.irrefl p ((hleast q hcq hqp).trans (hq p hc hqp.symm))

theorem scan_exists_iff :
    (∃ p, (scan proc quotaEnable).minCuProc = some p) ↔ ∃ p, Contends proc quotaEnable p := by
  have h := scan_inv proc quotaEnable
  constructor
  · rintro ⟨p, hp⟩
    exact ⟨p, (h.selected p hp).2.1⟩
  · rintro ⟨p, hp⟩
    cases hsel : (scan proc quotaEnable).minCuProc with
    | none => exact absurd hp ((h.none_selected hsel).2 p)
    | some q => exact ⟨q, rfl⟩

end

end Xv6.Sched
