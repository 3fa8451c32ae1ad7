/-
  Xv6.Proc.Listings — sys_child_processes and sys_myrep.

  Neither call sets `count` first: child_processes adds to it, and myrep also uses it as the
  index of its stores.
-/
import Xv6.Proc.Ancestors

namespace Xv6.Listings

open Lib Ancestors Function

/-! ## §1. child_processes. -/

abbrev Name := Fin 16 → UInt8

def strncpy (t : Name) : Name := fun i => if ∃ j, j < i ∧ t j = 0 then 0 else t i

@[ext] structure ProcInfo where
  name : Name
  pid : UInt32
  ppid : UInt32
  state : ProcState
  cpuUsage : CpuUsage

@[ext] structure ChildProcesses where
  count : Int32
  processes : Fin NPROC → ProcInfo

structure Table where
  proc : Slot → Proc
  name : Slot → Name
  current : Slot

/-- The stores into one entry; `old` is what was there. -/
def filled (t : Table) (p : Slot) (old : ProcInfo) : ProcInfo :=
  { old with
    name := strncpy (t.name p)
    pid := (t.proc p).pid
    ppid := ((t.proc p).parent.map fun q => (t.proc q).pid).getD 0
    state := (t.proc p).state }

def childStep (t : Table) (fuel : Nat) (st : Nat × ChildProcesses) (p : Slot) :
    Except Stop (Nat × ChildProcesses) :=
  if (t.proc p).state = .UNUSED then .ok st
  else
    match descends t.proc t.current fuel (t.proc p).parent with
    | .error e => .error e
    | .ok false => .ok st
    | .ok true =>
      if h : st.1 < NPROC then
        .ok (st.1 + 1,
          { count := st.2.count + 1
            processes := update st.2.processes ⟨st.1, h⟩
              (filled t p (st.2.processes ⟨st.1, h⟩)) })
      else .error .overflow

/-- What is copied out for the `cp` that was copied in; walks follow at most `fuel` pointers. -/
def sysChildProcesses (t : Table) (fuel : Nat) (cp : ChildProcesses) :
    Except Stop ChildProcesses :=
  ((List.finRange NPROC).foldlM (childStep t fuel) (0, cp)).map Prod.snd

/-! ## §2. What child_processes leaves in the buffer. -/

/-- A process in use below the caller. -/
def Listed (t : Table) (p : Slot) : Prop :=
  (t.proc p).state ≠ .UNUSED ∧
    t.current ∈ (walkUp (parentOf t.proc) NPROC (t.proc p).parent).getD []

instance (t : Table) (p : Slot) : Decidable (Listed t p) := inferInstanceAs (Decidable (_ ∧ _))

def descendants (t : Table) : List Slot := (List.finRange NPROC).filter fun p => Listed t p

/-- `cp` with the processes of `l` entered. -/
def entered (t : Table) (cp : ChildProcesses) (l : List Slot) : ChildProcesses :=
  { count := cp.count + Int32.ofNat l.length
    processes := fun i =>
      if h : i.val < l.length then filled t (l.get ⟨i.val, h⟩) (cp.processes i)
      else cp.processes i }

theorem entered_nil (t : Table) (cp : ChildProcesses) : entered t cp [] = cp := by
  simp [entered]

theorem entered_append (t : Table) (cp : ChildProcesses) (l : List Slot) (p : Slot)
    (h : l.length < NPROC) :
    entered t cp (l ++ [p]) =
      { count := (entered t cp l).count + 1
        processes := update (entered t cp l).processes ⟨l.length, h⟩
          (filled t p ((entered t cp l).processes ⟨l.length, h⟩)) } := by
  apply ChildProcesses.ext
  · show cp.count + Int32.ofNat (l ++ [p]).length = cp.count + Int32.ofNat l.length + 1
    rw [List.length_append, List.length_singleton, Int32.ofNat_add, Int32.add_assoc]
    rfl
  · funext i
    by_cases hi : i = ⟨l.length, h⟩
    · rw [hi]
      simp [entered]
    · have hne : i.val ≠ l.length := fun he => hi (Fin.ext he)
      dsimp only
      rw [update_of_ne hi]
      by_cases hlt : i.val < l.length
      · have hlt' : i.val < (l ++ [p]).length := by
          rw [List.length_append]
          omega
        simp only [entered, dif_pos hlt, dif_pos hlt', List.get_eq_getElem,
          List.getElem_append_left hlt]
      · have hge : ¬ i.val < (l ++ [p]).length := by
          rw [List.length_append, List.length_singleton]
          omega
        simp only [entered, dif_neg hlt, dif_neg hge]

section Forest

variable {t : Table} {rank : Slot → Nat} (hrank : Ranked (parentOf t.proc) rank)
  {fuel : Nat} (hfuel : NPROC ≤ fuel)

include hrank hfuel

theorem descends_listed {p : Slot} (hp : (t.proc p).state ≠ .UNUSED) :
    descends t.proc t.current fuel (t.proc p).parent = .ok (decide (Listed t p)) := by
  obtain ⟨l, hwalk, _, hlen⟩ := hrank.walkUp_card p
  rw [Fintype.card_fin] at hlen
  rw [descends_of_walkUp t.proc t.current fuel (t.proc p).parent l (hwalk fuel (by omega))]
  have hwalk' : walkUp (parentOf t.proc) NPROC (t.proc p).parent = some l := hwalk NPROC (by omega)
  simp [Listed, hp, hwalk']

theorem childStep_entered (cp : ChildProcesses) {l : List Slot} (hl : l.length < NPROC) (p : Slot) :
    childStep t fuel (l.length, entered t cp l) p =
      .ok (if Listed t p then ((l ++ [p]).length, entered t cp (l ++ [p]))
        else (l.length, entered t cp l)) := by
  unfold childStep
  by_cases hp : (t.proc p).state = .UNUSED
  · have hnot : ¬ Listed t p := fun h => h.1 hp
    rw [if_pos hp, if_neg hnot]
  · rw [if_neg hp, descends_listed hrank hfuel hp]
    by_cases hlisted : Listed t p
    · simp only [hlisted, decide_true, if_true, dif_pos hl]
      rw [entered_append t cp l p hl, List.length_append, List.length_singleton]
    · simp only [hlisted, decide_false, if_false]

theorem foldlM_childStep (cp : ChildProcesses) (slots l : List Slot)
    (hroom : l.length + slots.length ≤ NPROC) :
    slots.foldlM (childStep t fuel) (l.length, entered t cp l) =
      .ok ((l ++ slots.filter fun p => Listed t p).length,
        entered t cp (l ++ slots.filter fun p => Listed t p)) := by
  induction slots generalizing l with
  | nil => simp [pure, Except.pure]
  | cons p slots ih =>
    rw [List.length_cons] at hroom
    rw [List.foldlM_cons, childStep_entered hrank hfuel cp (by omega)]
    show slots.foldlM _ (if Listed t p then _ else _) = _
    by_cases hlisted : Listed t p
    · rw [if_pos hlisted, ih (l ++ [p]) (by rw [List.length_append]; simp; omega)]
      simp [hlisted]
    · rw [if_neg hlisted, ih l (by omega)]
      simp [hlisted]

theorem childProcesses_eq (cp : ChildProcesses) :
    sysChildProcesses t fuel cp = .ok (entered t cp (descendants t)) := by
  have h := foldlM_childStep hrank hfuel cp (List.finRange NPROC) [] (by simp)
  rw [entered_nil] at h
  unfold sysChildProcesses
  rw [show ((0 : Nat), cp) = (([] : List Slot).length, cp) from rfl, h]
  rfl

end Forest

/-- The name up to its zero, the pid, the state and the pid of the parent. -/
structure Describes (t : Table) (p : Slot) (e : ProcInfo) : Prop where
  name : ∀ j, (∀ k < j, t.name p k ≠ 0) → e.name j = t.name p j
  pid : e.pid = (t.proc p).pid
  ppid : ∃ q, (t.proc p).parent = some q ∧ e.ppid = (t.proc q).pid
  state : e.state = (t.proc p).state

theorem mem_descendants {t : Table} {rank : Slot → Nat} (hrank : Ranked (parentOf t.proc) rank)
    (p : Slot) : p ∈ descendants t ↔
      (t.proc p).state ≠ .UNUSED ∧ IsAncestor (parentOf t.proc) p t.current := by
  obtain ⟨l, hwalk, _, hlen⟩ := hrank.walkUp_card p
  rw [Fintype.card_fin] at hlen
  have hmem := mem_walkUp (hwalk NPROC (by omega)) t.current
  have hwalk' : walkUp (parentOf t.proc) NPROC (t.proc p).parent = some l := hwalk NPROC (by omega)
  rw [descendants, List.mem_filter, decide_eq_true_iff, Listed, hwalk', ← hmem]
  simp

theorem describes_filled {t : Table} {p : Slot} (h : IsAncestor (parentOf t.proc) p t.current)
    (old : ProcInfo) : Describes t p (filled t p old) := by
  obtain ⟨q, hq, _⟩ := Relation.TransGen.head'_iff.mp h
  have hparent : (t.proc p).parent = some q := hq
  refine ⟨fun j hj => ?_, rfl, ⟨q, hparent, ?_⟩, rfl⟩
  · show (if ∃ k, k < j ∧ t.name p k = 0 then 0 else t.name p j) = t.name p j
    rw [if_neg]
    rintro ⟨k, hk, hzero⟩
    exact hj k hk hzero
  · show ((t.proc p).parent.map fun q => (t.proc q).pid).getD 0 = _
    rw [hparent]
    rfl

/-- **child_processes lists the descendants**, each once and in table order,
when it starts with a count of zero. -/
theorem childProcesses_lists {t : Table} {rank : Slot → Nat}
    (hrank : Ranked (parentOf t.proc) rank) {fuel : Nat} (hfuel : NPROC ≤ fuel)
    {cp : ChildProcesses} (hcount : cp.count = 0) :
    ∃ (out : ChildProcesses) (l : List Slot),
      sysChildProcesses t fuel cp = .ok out ∧ l.Pairwise (· < ·) ∧
      (∀ p, p ∈ l ↔ (t.proc p).state ≠ .UNUSED ∧ IsAncestor (parentOf t.proc) p t.current) ∧
      out.count.toInt = l.length ∧
      ∀ i (hi : i < l.length) (hi' : i < NPROC),
        Describes t (l.get ⟨i, hi⟩) (out.processes ⟨i, hi'⟩) := by
  have hsub : (descendants t).Sublist (List.finRange NPROC) := List.filter_sublist
  have hlen : (descendants t).length ≤ NPROC := by simpa using hsub.length_le
  refine ⟨_, descendants t, childProcesses_eq hrank hfuel cp, ?_, mem_descendants hrank, ?_, ?_⟩
  · exact (List.pairwise_lt_finRange NPROC).sublist hsub
  · show (cp.count + Int32.ofNat (descendants t).length).toInt = _
    rw [hcount, Int32.zero_add]
    exact Int32.toInt_ofNat_of_lt (Nat.lt_of_le_of_lt hlen (by decide))
  · intro i hi hi'
    have hbelow := ((mem_descendants hrank _).mp (List.get_mem _ ⟨i, hi⟩)).2
    simp only [entered, dif_pos hi]
    exact describes_filled hbelow _

/-! ## §3. myrep. -/

abbrev REPORT_BUFFER_SIZE : Nat := 10

structure Report where
  pname : Name
  pid : UInt32
  ancestors : Fin NPROC → UInt32
  ancestorsCount : Nat
  scause : UInt64
  sepc : UInt64
  stval : UInt64
  ancestors_le : ancestorsCount ≤ NPROC

structure ReportList where
  reports : Fin REPORT_BUFFER_SIZE → Report
  count : Int32
  writeIndex : Fin REPORT_BUFFER_SIZE

@[ext] structure ReportTraps where
  reports : Fin REPORT_BUFFER_SIZE → Report
  count : Int32

def Report.names (r : Report) (pid : UInt32) : Prop :=
  ∃ j : Fin NPROC, j < r.ancestorsCount ∧ r.ancestors j = pid

instance (r : Report) (pid : UInt32) : Decidable (r.names pid) :=
  inferInstanceAs (Decidable (∃ _, _))

def store (rt : ReportTraps) (r : Report) : Except Stop ReportTraps :=
  if h : 0 ≤ rt.count.toInt ∧ rt.count.toInt < REPORT_BUFFER_SIZE then
    .ok { reports := update rt.reports ⟨rt.count.toInt.toNat, by omega⟩ r
          count := rt.count + 1 }
  else .error .overflow

def myrepLoop (list : ReportList) (pid : UInt32) :
    Nat → Fin REPORT_BUFFER_SIZE → ReportTraps → Except Stop ReportTraps
  | 0, _, rt => .ok rt
  | n + 1, readIndex, rt =>
    if (list.reports readIndex).names pid then
      (store rt (list.reports readIndex)).bind (myrepLoop list pid n (readIndex + 1))
    else myrepLoop list pid n (readIndex + 1) rt

def ReportList.firstIndex (list : ReportList) : Fin REPORT_BUFFER_SIZE :=
  if list.count.toInt ≤ REPORT_BUFFER_SIZE then 0 else list.writeIndex

/-- How many turns the loop makes. -/
def ReportList.held (list : ReportList) : Nat := min REPORT_BUFFER_SIZE list.count.toInt.toNat

/-- What is copied out for the structure `rt` that was copied in. -/
def sysMyrep (list : ReportList) (pid : UInt32) (rt : ReportTraps) : Except Stop ReportTraps :=
  myrepLoop list pid list.held list.firstIndex rt

/-! ## §4. What myrep leaves in the buffer. -/

/-- The reports that the loop looks at, the oldest first. -/
def visited (list : ReportList) : Nat → Fin REPORT_BUFFER_SIZE → List Report
  | 0, _ => []
  | n + 1, readIndex => list.reports readIndex :: visited list n (readIndex + 1)

/-- The crashes of the last ten that happened below this process. -/
def crashes (list : ReportList) (pid : UInt32) : List Report :=
  (visited list list.held list.firstIndex).filter fun r => r.names pid

theorem myrepLoop_eq (list : ReportList) (pid : UInt32) (n : Nat)
    (readIndex : Fin REPORT_BUFFER_SIZE) (rt : ReportTraps) :
    myrepLoop list pid n readIndex rt =
      ((visited list n readIndex).filter fun r => r.names pid).foldlM store rt := by
  induction n generalizing readIndex rt with
  | zero => rfl
  | succ n ih =>
    rw [myrepLoop, visited]
    by_cases hnames : (list.reports readIndex).names pid
    · rw [if_pos hnames, List.filter_cons_of_pos (by simpa using hnames), List.foldlM_cons]
      cases store rt (list.reports readIndex) with
      | error e => rfl
      | ok rt' => exact ih (readIndex + 1) rt'
    · rw [if_neg hnames, List.filter_cons_of_neg (by simpa using hnames)]
      exact ih (readIndex + 1) rt

/-- `rt` with the reports of `l` from index `count` on. -/
def appended (rt : ReportTraps) (l : List Report) : ReportTraps :=
  { count := rt.count + Int32.ofNat l.length
    reports := fun i =>
      if rt.count.toInt ≤ i.val then l.getD (i.val - rt.count.toInt).toNat (rt.reports i)
      else rt.reports i }

def Fits (rt : ReportTraps) (l : List Report) : Prop :=
  l = [] ∨ 0 ≤ rt.count.toInt ∧ rt.count.toInt + l.length ≤ REPORT_BUFFER_SIZE

theorem count_succ {c : Int32} (h0 : 0 ≤ c.toInt) (h : c.toInt < REPORT_BUFFER_SIZE) :
    (c + 1).toInt = c.toInt + 1 := by
  have hone : (1 : Int32).toInt = 1 := rfl
  have hsize : ((REPORT_BUFFER_SIZE : Nat) : Int) = 10 := rfl
  rw [Int32.toInt_add, hone]
  exact Int.bmod_eq_of_le (by omega) (by omega)

theorem appended_nil (rt : ReportTraps) : appended rt [] = rt := by
  simp [appended]

theorem appended_cons {rt rt' : ReportTraps} {r : Report} (l : List Report)
    (h : store rt r = .ok rt') : appended rt (r :: l) = appended rt' l := by
  unfold store at h
  split at h
  case isFalse => cases h
  case isTrue hin =>
    obtain ⟨h0, h10⟩ := hin
    cases h
    have hsucc := count_succ h0 h10
    have hsize : ((REPORT_BUFFER_SIZE : Nat) : Int) = 10 := rfl
    apply ReportTraps.ext
    · funext i
      simp only [appended, hsucc]
      by_cases hi : (i.val : Int) = rt.count.toInt
      · -- the entry written first
        have hidx : i = ⟨rt.count.toInt.toNat, by omega⟩ := Fin.ext (show i.val = rt.count.toInt.toNat by omega)
        rw [if_pos (by omega), if_neg (by omega), show (i.val - rt.count.toInt).toNat = 0 by omega]
        rw [hidx, update_self]
        rfl
      · have hidx : i ≠ ⟨rt.count.toInt.toNat, by omega⟩ := by
          intro he
          rw [he] at hi
          simp only at hi
          omega
        rw [update_of_ne hidx]
        by_cases hge : rt.count.toInt ≤ i.val
        · rw [if_pos hge, if_pos (by omega), show (i.val - rt.count.toInt).toNat =
            (i.val - (rt.count.toInt + 1)).toNat + 1 by omega]
          rfl
        · rw [if_neg hge, if_neg (by omega)]
    · show rt.count + Int32.ofNat (r :: l).length = rt.count + 1 + Int32.ofNat l.length
      rw [List.length_cons, Nat.add_comm, Int32.ofNat_add, ← Int32.add_assoc]
      rfl

theorem foldlM_store (rt : ReportTraps) (l : List Report) :
    l.foldlM store rt = .ok (appended rt l) ∧ Fits rt l ∨
      l.foldlM store rt = .error .overflow ∧ ¬ Fits rt l := by
  induction l generalizing rt with
  | nil =>
    left
    rw [appended_nil]
    exact ⟨rfl, .inl rfl⟩
  | cons r l ih =>
    rw [List.foldlM_cons]
    by_cases hin : 0 ≤ rt.count.toInt ∧ rt.count.toInt < REPORT_BUFFER_SIZE
    · obtain ⟨rt', hstore⟩ : ∃ rt', store rt r = .ok rt' := by
        unfold store
        rw [dif_pos hin]
        exact ⟨_, rfl⟩
      have hcount : rt'.count.toInt = rt.count.toInt + 1 := by
        unfold store at hstore
        rw [dif_pos hin] at hstore
        cases hstore
        exact count_succ hin.1 hin.2
      have hfits : Fits rt (r :: l) ↔ Fits rt' l := by
        unfold Fits
        rw [hcount, List.length_cons]
        constructor
        · intro hf
          have := hf.resolve_left (by simp)
          exact .inr (by omega)
        · intro hf
          right
          rcases hf with rfl | hf
          · simp only [List.length_nil]
            omega
          · omega
      rw [hstore, hfits, appended_cons l hstore]
      exact ih rt'
    · right
      have hstore : store rt r = .error .overflow := by
        unfold store
        rw [dif_neg hin]
      refine ⟨by rw [hstore]; rfl, ?_⟩
      rintro (hnil | hfit)
      · cases hnil
      · rw [List.length_cons] at hfit
        omega

variable {list : ReportList} {pid : UInt32} {rt : ReportTraps} {l : List Report}
  {i : Fin REPORT_BUFFER_SIZE}

theorem myrep_eq (h : Fits rt (crashes list pid)) :
    sysMyrep list pid rt = .ok (appended rt (crashes list pid)) := by
  rw [sysMyrep, myrepLoop_eq]
  rcases foldlM_store rt (crashes list pid) with ⟨hok, _⟩ | ⟨_, hnot⟩
  · exact hok
  · exact absurd h hnot

/-- A store outside the array otherwise. -/
theorem myrep_overflow
    (h : ¬ Fits rt (crashes list pid)) : sysMyrep list pid rt = .error .overflow := by
  rw [sysMyrep, myrepLoop_eq]
  rcases foldlM_store rt (crashes list pid) with ⟨_, hfits⟩ | ⟨herr, _⟩
  · exact absurd hfits h
  · exact herr

theorem appended_count (h : Fits rt l) :
    (appended rt l).count.toInt = rt.count.toInt + l.length := by
  rcases h with rfl | ⟨h0, hroom⟩
  · simp [appended]
  · have hsize : ((REPORT_BUFFER_SIZE : Nat) : Int) = 10 := rfl
    have hlen : (Int32.ofNat l.length).toInt = l.length := Int32.toInt_ofNat_of_lt (by omega)
    show (rt.count + Int32.ofNat l.length).toInt = _
    rw [Int32.toInt_add, hlen]
    exact Int.bmod_eq_of_le (by omega) (by omega)

theorem appended_older (h : i.val < rt.count.toInt) : (appended rt l).reports i = rt.reports i := by
  simp only [appended, if_neg (not_le.mpr h)]

theorem appended_newer
    (hge : rt.count.toInt ≤ i.val) (hlt : (i.val - rt.count.toInt).toNat < l.length) :
    (appended rt l).reports i = l.get ⟨_, hlt⟩ := by
  simp [appended, hge, hlt]

/-! ## §5. The ring of reports. -/

/-- The critical section of store_trap. -/
def ReportList.push (list : ReportList) (r : Report) : ReportList :=
  { reports := update list.reports list.writeIndex r
    count := list.count + 1
    writeIndex := list.writeIndex + 1 }

/-- The list after the reports of `l`, one after the other; `old` is what was
in the array at boot. -/
def recorded (old : Fin REPORT_BUFFER_SIZE → Report) (l : List Report) : ReportList :=
  l.foldl .push { reports := old, count := 0, writeIndex := 0 }

/-- The cell of report number `m`. -/
def cell (m : Nat) : Fin REPORT_BUFFER_SIZE := Fin.ofNat REPORT_BUFFER_SIZE m

theorem cell_succ (m : Nat) : cell m + 1 = cell (m + 1) := by
  apply Fin.ext
  simp [cell, Fin.val_add]

theorem cell_ne {m n : Nat} (h : m < n) (hn : n < m + REPORT_BUFFER_SIZE) : cell m ≠ cell n := by
  intro he
  have hval : m % 10 = n % 10 := congrArg Fin.val he
  change n < m + 10 at hn
  omega

section

variable (old : Fin REPORT_BUFFER_SIZE → Report)

include old

theorem recorded_spec (l : List Report) :
    (recorded old l).count = Int32.ofNat l.length ∧ (recorded old l).writeIndex = cell l.length ∧
      ∀ m (hm : m < l.length), l.length ≤ m + REPORT_BUFFER_SIZE →
        (recorded old l).reports (cell m) = l.get ⟨m, hm⟩ := by
  induction l using List.reverseRecOn with
  | nil => exact ⟨rfl, rfl, fun m hm => absurd hm (by simp)⟩
  | append_singleton l r ih =>
    obtain ⟨hcount, hindex, hcells⟩ := ih
    have hpush : recorded old (l ++ [r]) = (recorded old l).push r := by
      simp [recorded, List.foldl_append]
    have hlen : (l ++ [r]).length = l.length + 1 := by simp
    rw [hpush]
    refine ⟨?_, ?_, fun m hm hlast => ?_⟩
    · show (recorded old l).count + 1 = _
      rw [hcount, hlen, Int32.ofNat_add]
      rfl
    · show (recorded old l).writeIndex + 1 = _
      rw [hindex, cell_succ, hlen]
    · show update (recorded old l).reports (recorded old l).writeIndex r (cell m) = _
      rw [hindex]
      rcases Nat.lt_or_ge m l.length with hlt | hge
      · rw [update_of_ne (cell_ne hlt (by omega)), hcells m hlt (by omega)]
        simp [List.getElem_append_left hlt]
      · obtain rfl : m = l.length := by omega
        rw [update_self]
        simp

theorem visited_recorded (l : List Report) (k m : Nat)
    (hk : m + k = l.length) (hle : k ≤ REPORT_BUFFER_SIZE) :
    visited (recorded old l) k (cell m) = l.drop m := by
  induction k generalizing m with
  | zero => rw [visited, List.drop_of_length_le (by omega)]
  | succ k ih =>
    have hm : m < l.length := by omega
    rw [visited, cell_succ, ih (m + 1) (by omega) (by omega), List.drop_eq_getElem_cons hm,
      (recorded_spec old l).2.2 m hm (by omega)]
    rfl

theorem crashes_recorded (hlen : l.length < 2 ^ 31) (pid : UInt32) : crashes (recorded old l) pid =
      (l.drop (l.length - REPORT_BUFFER_SIZE)).filter fun r => r.names pid := by
  obtain ⟨hcount, hindex, _⟩ := recorded_spec old l
  have hint : (recorded old l).count.toInt = l.length := by
    rw [hcount]
    exact Int32.toInt_ofNat_of_lt hlen
  have hheld : (recorded old l).held = min REPORT_BUFFER_SIZE l.length := by
    rw [ReportList.held, hint, Int.toNat_natCast]
  have hfirst : (recorded old l).firstIndex = cell (l.length - REPORT_BUFFER_SIZE) := by
    rw [ReportList.firstIndex, hint, hindex]
    split
    · next hle => rw [Nat.sub_eq_zero_of_le (by omega)]; rfl
    · next hgt =>
      apply Fin.ext
      change ¬ (l.length : Int) ≤ 10 at hgt
      show l.length % 10 = (l.length - 10) % 10
      omega
  unfold crashes
  rw [hheld, hfirst, visited_recorded old l _ _ (by omega) (Nat.min_le_left _ _)]

end

/-- **myrep returns the recent reports of descendants**, the oldest first, when
it starts with a count of zero. -/
theorem myrep_recent (old : Fin REPORT_BUFFER_SIZE → Report) {l : List Report}
    (hlen : l.length < 2 ^ 31) (pid : UInt32) {rt : ReportTraps} (hcount : rt.count = 0) :
    ∃ out recent, sysMyrep (recorded old l) pid rt = .ok out ∧
      recent = (l.drop (l.length - REPORT_BUFFER_SIZE)).filter (fun r => r.names pid) ∧
      out.count.toInt = recent.length ∧
      ∀ i (hi : i < recent.length) (hi' : i < REPORT_BUFFER_SIZE),
        out.reports ⟨i, hi'⟩ = recent.get ⟨i, hi⟩ := by
  have hcrash := crashes_recorded old hlen pid
  have hshort : (crashes (recorded old l) pid).length ≤ REPORT_BUFFER_SIZE := by
    rw [hcrash]
    refine (List.length_filter_le _ _).trans ?_
    rw [List.length_drop]
    omega
  have hzero : rt.count.toInt = 0 := by rw [hcount]; rfl
  have hfits : Fits rt (crashes (recorded old l) pid) := Or.inr (by omega)
  refine ⟨_, _, myrep_eq hfits, hcrash, ?_, fun i hi hi' => ?_⟩
  · rw [appended_count hfits, hzero, Int.zero_add]
  · rw [appended_newer (by rw [hzero]; omega) (by rw [hzero]; simpa using hi)]
    simp [hzero]

/-! ## §6. Two buffers. -/

def SameChildren (out out' : ChildProcesses) : Prop :=
  out.count = out'.count ∧
    ∀ i : Fin NPROC, i.val < out.count.toInt → out.processes i = out'.processes i

def SameReports (out out' : ReportTraps) : Prop :=
  out.count = out'.count ∧
    ∀ i : Fin REPORT_BUFFER_SIZE, i.val < out.count.toInt → out.reports i = out'.reports i

/-- Two contents of the buffer lead to the same result, with every store in bounds. -/
def Independent (t : Table) (list : ReportList) (fuel : Nat) (cp cp' : ChildProcesses)
    (rt rt' : ReportTraps) : Prop :=
  (∃ out out', sysChildProcesses t fuel cp = .ok out ∧ sysChildProcesses t fuel cp' = .ok out' ∧
      SameChildren out out') ∧
    ∃ out out', sysMyrep list (t.proc t.current).pid rt = .ok out ∧
      sysMyrep list (t.proc t.current).pid rt' = .ok out' ∧ SameReports out out'

/-- The count, `cpu_usage` of the entries that are filled, and the entries behind them up to the new
count. -/
structure ChildrenAgree (t : Table) (cp cp' : ChildProcesses) : Prop where
  count : cp.count = cp'.count
  usage : ∀ i : Fin NPROC, i.val < (entered t cp (descendants t)).count.toInt →
    i.val < (descendants t).length → (cp.processes i).cpuUsage = (cp'.processes i).cpuUsage
  rest : ∀ i : Fin NPROC, i.val < (entered t cp (descendants t)).count.toInt →
    (descendants t).length ≤ i.val → cp.processes i = cp'.processes i

/-- The two buffers agree in the count and the entries in front of it, and the crashes fit behind
them. -/
structure ReportsAgree (list : ReportList) (pid : UInt32) (rt rt' : ReportTraps) : Prop where
  count : rt.count = rt'.count
  older : ∀ i : Fin REPORT_BUFFER_SIZE, i.val < rt.count.toInt → rt.reports i = rt'.reports i
  room : Fits rt (crashes list pid)

theorem filled_eq_iff (t : Table) (p : Slot) (old old' : ProcInfo) :
    filled t p old = filled t p old' ↔ old.cpuUsage = old'.cpuUsage := by
  simp [filled, ProcInfo.ext_iff]

theorem sameChildren_iff (t : Table) (cp cp' : ChildProcesses) :
    SameChildren (entered t cp (descendants t)) (entered t cp' (descendants t)) ↔
      ChildrenAgree t cp cp' := by
  have hcount : (entered t cp (descendants t)).count = (entered t cp' (descendants t)).count ↔
      cp.count = cp'.count := Int32.add_left_inj _
  constructor
  · rintro ⟨hc, hentries⟩
    refine ⟨hcount.mp hc, fun i hi hlt => ?_, fun i hi hge => ?_⟩
    · have he := hentries i hi
      simp only [entered, dif_pos hlt] at he
      exact (filled_eq_iff ..).mp he
    · have he := hentries i hi
      simpa only [entered, dif_neg (not_lt.mpr hge)] using he
  · intro h
    refine ⟨hcount.mpr h.count, fun i hi => ?_⟩
    by_cases hlt : i.val < (descendants t).length
    · simp only [entered, dif_pos hlt]
      exact (filled_eq_iff ..).mpr (h.usage i hi hlt)
    · simp only [entered, dif_neg hlt]
      exact h.rest i hi (not_lt.mp hlt)

theorem sameReports_iff {rt rt' : ReportTraps} (hroom : Fits rt (crashes list pid)) :
    SameReports (appended rt (crashes list pid)) (appended rt' (crashes list pid)) ↔
      ReportsAgree list pid rt rt' := by
  have hcount : (appended rt (crashes list pid)).count = (appended rt' (crashes list pid)).count ↔
      rt.count = rt'.count := Int32.add_left_inj _
  have htotal := appended_count hroom
  constructor
  · rintro ⟨hc, hentries⟩
    have hc' := hcount.mp hc
    refine ⟨hc', fun i hi => ?_, hroom⟩
    have he := hentries i (by omega)
    rwa [appended_older hi, appended_older (hc' ▸ hi)] at he
  · intro h
    refine ⟨hcount.mpr h.count, fun i hi => ?_⟩
    by_cases hold : i.val < rt.count.toInt
    · rw [appended_older hold, appended_older (h.count ▸ hold)]
      exact h.older i hold
    · have hge : rt.count.toInt ≤ i.val := not_lt.mp hold
      have hlt : (i.val - rt.count.toInt).toNat < (crashes list pid).length := by omega
      rw [appended_newer hge hlt, appended_newer (h.count ▸ hge) (h.count ▸ hlt)]
      simp only [h.count]

/-- **When the caller's buffer does not matter**: exactly when the two agree in what the calls do
not write and the reports have room behind the count passed in. -/
theorem buffer_independent_iff (t : Table) (list : ReportList) {rank : Slot → Nat}
    (hrank : Ranked (parentOf t.proc) rank) {fuel : Nat} (hfuel : NPROC ≤ fuel)
    (cp cp' : ChildProcesses) (rt rt' : ReportTraps) :
    Independent t list fuel cp cp' rt rt' ↔
      ChildrenAgree t cp cp' ∧ ReportsAgree list (t.proc t.current).pid rt rt' := by
  have hcp := childProcesses_eq hrank hfuel cp
  have hcp' := childProcesses_eq hrank hfuel cp'
  constructor
  · rintro ⟨⟨out, out', ho, ho', hsame⟩, rout, rout', hr, hr', hrsame⟩
    constructor
    · rw [hcp] at ho
      rw [hcp'] at ho'
      cases ho
      cases ho'
      exact (sameChildren_iff t cp cp').mp hsame
    · have hroom : Fits rt (crashes list (t.proc t.current).pid) := by
        by_contra hnot
        rw [myrep_overflow hnot] at hr
        cases hr
      have hroom' : Fits rt' (crashes list (t.proc t.current).pid) := by
        by_contra hnot
        rw [myrep_overflow hnot] at hr'
        cases hr'
      rw [myrep_eq hroom] at hr
      rw [myrep_eq hroom'] at hr'
      cases hr
      cases hr'
      exact (sameReports_iff hroom).mp hrsame
  · rintro ⟨hchildren, hreports⟩
    have hroom := hreports.room
    have hroom' : Fits rt' (crashes list (t.proc t.current).pid) := by
      unfold Fits at hroom ⊢
      rw [← hreports.count]
      exact hroom
    exact ⟨⟨_, _, hcp, hcp', (sameChildren_iff t cp cp').mpr hchildren⟩,
      _, _, myrep_eq hroom, myrep_eq hroom', (sameReports_iff hroom).mpr hreports⟩

/-! ## §7. A parent and its crashed child. -/

def familyTable : Table :=
  { proc := fun p =>
      if p = 0 then { Proc.init with state := .RUNNING, pid := 1 }
      else if p = 1 then { Proc.init with state := .ZOMBIE, pid := 2, parent := some 0 }
      else Proc.init
    name := fun _ _ => 0
    current := 0 }

def childReport : Report :=
  { pname := fun _ => 0, pid := 2, ancestors := fun _ => 1, ancestorsCount := 1
    scause := 13, sepc := 0, stval := 0, ancestors_le := by decide }

def oneCrash : ReportList := { reports := fun _ => childReport, count := 1, writeIndex := 1 }

def childBuffer (count : Int32) : ChildProcesses :=
  { count := count
    processes := fun _ => { name := fun _ => 0, pid := 0, ppid := 0, state := .UNUSED
                            cpuUsage := { sumOfTicks := 0, startTick := 0, quota := 0 } } }

def reportBuffer (count : Int32) : ReportTraps :=
  { count := count, reports := fun _ => childReport }

theorem familyTable_ranked : Ranked (parentOf familyTable.proc) (fun p => p.val) := by
  unfold Ranked
  decide

/-- The child of slot 0 is listed. -/
theorem childProcesses_lists_family : ∃ (out : ChildProcesses) (l : List Slot),
    sysChildProcesses familyTable NPROC (childBuffer 0) = .ok out ∧ 1 ∈ l ∧
      out.count.toInt = l.length := by
  have hzero : (childBuffer 0).count = 0 := rfl
  obtain ⟨out, l, hout, _, hmem, hcount, _⟩ :=
    childProcesses_lists familyTable_ranked (Nat.le_refl NPROC) hzero
  have hparent : parentOf familyTable.proc 1 = some 0 := by decide
  exact ⟨out, l, hout, (hmem 1).mpr ⟨by decide, .single hparent⟩, hcount⟩

/-- The report of the child comes back. -/
theorem myrep_recent_child : ∃ out : ReportTraps,
    sysMyrep (recorded (fun _ => childReport) [childReport]) 1 (reportBuffer 0) = .ok out ∧
      out.count.toInt = 1 := by
  have hzero : (reportBuffer 0).count = 0 := rfl
  obtain ⟨out, recent, hout, hrecent, hcount, _⟩ :=
    myrep_recent (l := [childReport]) (fun _ => childReport) (by decide) 1 hzero
  have hnames : childReport.names 1 := ⟨0, by decide, rfl⟩
  have hone : recent.length = 1 := by
    rw [hrecent, show [childReport].length - REPORT_BUFFER_SIZE = 0 from rfl]
    simp [hnames]
  exact ⟨out, hout, by rw [hcount, hone]; rfl⟩

theorem buffer_independent_zeroed :
    Independent familyTable oneCrash NPROC (childBuffer 0) (childBuffer 0) (reportBuffer 0)
      (reportBuffer 0) := by
  refine (buffer_independent_iff familyTable oneCrash familyTable_ranked le_rfl _ _ _ _).mpr
    ⟨⟨rfl, fun _ _ _ => rfl, fun _ _ _ => rfl⟩, rfl, fun _ _ => rfl, ?_⟩
  right
  decide +kernel

/-- **The count in the buffer matters.** With count 10, one descendant comes back as eleven, and the
report is stored behind the array. -/
theorem buffer_count_matters :
    ¬ Independent familyTable oneCrash NPROC (childBuffer 0) (childBuffer 10) (reportBuffer 0)
        (reportBuffer 10) ∧
      (sysChildProcesses familyTable NPROC (childBuffer 0)).toOption.map (·.count) = some 1 ∧
      (sysChildProcesses familyTable NPROC (childBuffer 10)).toOption.map (·.count) = some 11 ∧
      (sysMyrep oneCrash 1 (reportBuffer 10)).toOption.isNone := by
  have hnone : (sysMyrep oneCrash 1 (reportBuffer 10)).toOption.isNone = true := by
    decide +kernel
  refine ⟨?_, by decide +kernel, by decide +kernel, hnone⟩
  rintro ⟨_, out, out', _, hout', _⟩
  have hpid : (familyTable.proc familyTable.current).pid = 1 := by decide
  rw [hpid] at hout'
  rw [hout'] at hnone
  exact absurd hnone (by simp [Except.toOption])

end Xv6.Listings
