/-
  Xv6.Log.Admission — begin_op, log_write and end_op of any number of processes.

  The critical sections of Log/Defs as a program of `Monitor`.
-/
import Xv6.Lib.Monitor
import Xv6.Log.Defs

namespace Xv6.LogLayer.Admission

open Lib Lib.Monitor Function List

/-! ## §1. The calls. -/

inductive Chan where
  | log
  deriving DecidableEq

inductive Input where
  | beginOp
  | logWrite (blockno : Nat)
  | endOp
  deriving DecidableEq

inductive Pc where
  | idle
  | bEnter
  | bLoop
  | bSleep
  | bUnlock
  | inOp
  | lEnter (blockno : Nat)
  | lWrite (blockno : Nat)
  | lUnlock
  | eEnter
  | eLeave
  | eWake
  | eUnlock (doCommit : Bool)
  /-- commit(): the test of `log.lh.n`. -/
  | cTest
  /-- write_log, write_head and install_trans. -/
  | cWrite
  | cClear
  /-- The second write_head. -/
  | cErase
  | dEnter
  | dClear
  | dWake
  | dUnlock
  | panicked (e : Panic)
  deriving DecidableEq

/-- A process outside of a transaction starts one. -/
def callOutside : Input → Pc
  | .beginOp => .bEnter
  | _ => .idle

def callInside : Input → Pc
  | .logWrite b => .lEnter b
  | .endOp => .eEnter
  | .beginOp => .inOp

def tryBegin (log : Log) : Log × Pc :=
  match beginOp log with
  | some log' => (log', .bUnlock)
  | none => (log, .bSleep)

def record (log : Log) (b : Nat) : Log × Pc :=
  match logWrite log b with
  | .ok (log', _) => (log', .lUnlock)
  | .error e => (log, .panicked e)

def leave (log : Log) : Log × Pc :=
  match endOp log with
  | .ok (log', true) => (log', .eUnlock true)
  | .ok (log', false) => (log', .eWake)
  | .error e => (log, .panicked e)

def code : Pc → Instr Log Pc Chan Input
  | .idle => .access fun log _ i => (log, callOutside i)
  -- begin_op
  | .bEnter => .acquire .bLoop
  | .bLoop => .access fun log _ _ => tryBegin log
  | .bSleep => .sleep .log .bLoop
  | .bUnlock => .release .inOp
  | .inOp => .access fun log _ i => (log, callInside i)
  -- log_write
  | .lEnter b => .acquire (.lWrite b)
  | .lWrite b => .access fun log _ _ => record log b
  | .lUnlock => .release .inOp
  -- end_op
  | .eEnter => .acquire .eLeave
  | .eLeave => .access fun log _ _ => leave log
  | .eWake => .wakeup .log (.eUnlock false)
  | .eUnlock doCommit => .release (if doCommit then .cTest else .idle)
  -- commit, without the lock
  | .cTest => .access fun log _ _ => (log, if log.lh.length > 0 then .cWrite else .dEnter)
  | .cWrite => .access fun log _ _ => (log, .cClear)
  | .cClear => .access fun log _ _ => ({ log with lh := [] }, .cErase)
  | .cErase => .access fun log _ _ => (log, .dEnter)
  -- the rest of end_op
  | .dEnter => .acquire .dClear
  | .dClear => .access fun log _ _ => (endCommit log, .dWake)
  | .dWake => .wakeup .log .dUnlock
  | .dUnlock => .release .idle
  -- the kernel stands still, and so does the lock
  | .panicked e => .access fun log _ _ => (log, .panicked e)

def prog : Program Log Pc Chan Input where
  code := code
  env := fun _ _ => none

def held : Pc → Bool
  | .idle | .bEnter | .inOp | .lEnter _ | .eEnter | .cTest | .cWrite | .cClear | .cErase
  | .dEnter => false
  | _ => true

abbrev State (n : Nat) := Monitor.State n Log Pc Chan

def LogRun {n : Nat} (s : State n) : Prop :=
  ∃ logstart nlog, Monitor.RunWith prog (initlog logstart nlog) .idle (fun _ _ => True) s

/-! ## §2. What the critical sections do. -/

def Pc.inside : Pc → Bool
  | .bUnlock | .inOp | .lEnter _ | .lWrite _ | .lUnlock | .eEnter | .eLeave | .panicked _ => true
  | _ => false

inductive Access (log : Log) : Pc → Log → Pc → Prop where
  | call (i : Input) : Access log .idle log (callOutside i)
  | enter (hoff : log.committing = false) :
      Access log .bLoop { log with outstanding := log.outstanding + 1 } .bUnlock
  | wait (hnone : beginOp log = none) : Access log .bLoop log .bSleep
  | callIn (i : Input) : Access log .inOp log (callInside i)
  | absorb (b : Nat) : Access log (.lWrite b) log .lUnlock
  | append (b : Nat) (hout : 1 ≤ log.outstanding) (hb : b ∉ log.lh) :
      Access log (.lWrite b) { log with lh := log.lh ++ [b] } .lUnlock
  | last (hoff : log.committing = false) (hout : log.outstanding = 1) :
      Access log .eLeave { log with outstanding := 0, committing := true } (.eUnlock true)
  | leave (hoff : log.committing = false) (hout : log.outstanding ≠ 1) :
      Access log .eLeave { log with outstanding := log.outstanding - 1 } .eWake
  | panic (l : Pc) (e : Panic) (hl : l.inside = true) (hheld : held l = true) :
      Access log l log (.panicked e)
  | full : Access log .cTest log .cWrite
  | empty (hlh : log.lh = []) : Access log .cTest log .dEnter
  | write : Access log .cWrite log .cClear
  | clear : Access log .cClear { log with lh := [] } .cErase
  | erase : Access log .cErase log .dEnter
  | done : Access log .dClear (endCommit log) .dWake

theorem access_tryBegin (log : Log) : Access log .bLoop (tryBegin log).1 (tryBegin log).2 := by
  unfold tryBegin
  split
  · next log' h =>
    obtain ⟨hc, _, rfl⟩ := beginOp_eq_some h
    exact .enter hc
  · next h => exact .wait h

theorem access_record (log : Log) (b : Nat) :
    Access log (.lWrite b) (record log b).1 (record log b).2 := by
  unfold record
  split
  · next log' pin h =>
    obtain ⟨_, _, hout, ⟨_, _, rfl⟩ | ⟨hb, _, rfl⟩⟩ := logWrite_eq_ok h
    · exact .absorb b
    · exact .append b hout hb
  · exact .panic _ _ rfl rfl

theorem access_leave (log : Log) : Access log .eLeave (leave log).1 (leave log).2 := by
  unfold leave
  split
  · next log' h =>
    obtain ⟨hc, ⟨hout, _, rfl⟩ | ⟨_, hcommit, _⟩⟩ := endOp_eq_ok h
    · exact .last hc hout
    · cases hcommit
  · next log' h =>
    obtain ⟨hc, ⟨_, hcommit, _⟩ | ⟨hout, _, rfl⟩⟩ := endOp_eq_ok h
    · cases hcommit
    · exact .leave hc hout
  · exact .panic _ _ rfl rfl

theorem access_of_code {l : Pc} {f : Log → Bool → Input → Log × Pc}
    (hc : prog.code l = .access f) (log : Log) (killed : Bool) (i : Input) :
    Access log l (f log killed i).1 (f log killed i).2 := by
  cases l <;> cases hc
  case idle => exact .call i
  case bLoop => exact access_tryBegin log
  case inOp => exact .callIn i
  case lWrite b => exact access_record log b
  case eLeave => exact access_leave log
  case cTest =>
    show Access log .cTest log (if log.lh.length > 0 then .cWrite else .dEnter)
    split
    · exact .full
    · next hn => exact .empty (length_eq_zero_iff.mp (by omega))
  case cWrite => exact .write
  case cClear => exact .clear
  case cErase => exact .erase
  case dClear => exact .done
  case panicked e => exact .panic _ _ rfl rfl

variable {log log' : Log} {l l' : Pc} {n : Nat} {s : State n}

theorem held_access (h : Access log l log' l') : held l' = held l := by
  cases h with
  | call i | callIn i => cases i <;> rfl
  | panic l e _ hheld => exact hheld.symm
  | _ => rfl

theorem disciplined : Disciplined prog held where
  access l f hc log killed i := held_access (access_of_code hc log killed i)
  acquire l l' hc := by
    cases l <;> cases hc <;> exact ⟨rfl, rfl⟩
  release l l' hc := by
    cases l <;> cases hc
    case eUnlock doCommit => cases doCommit <;> exact ⟨rfl, rfl⟩
    all_goals exact ⟨rfl, rfl⟩
  sleep l c l' hc := by
    cases l <;> cases hc
    exact ⟨rfl, rfl⟩
  wakeup l c l' hc := by
    cases l <;> cases hc <;> rfl

/-! ## §3. The two counts. -/

/-- In the part of end_op during which `log.committing` is set. -/
def Pc.commits : Pc → Bool
  | .eUnlock true | .cTest | .cWrite | .cClear | .cErase | .dEnter | .dClear => true
  | _ => false

structure Counted {n : Nat} (s : State n) : Prop where
  outstanding : s.shared.outstanding = ∑ q, flag (s.pc q).inside
  committing : flag s.shared.committing = ∑ q, flag (s.pc q).commits

section Counts

variable {n : Nat} {s : State n} {p : Fin n}

theorem Counted.nonneg (h : Counted s) : 0 ≤ s.shared.outstanding := by
  rw [h.outstanding]
  exact Finset.sum_nonneg fun q _ => flag_nonneg _

theorem Counted.pos_of_inside (h : Counted s) (hp : (s.pc p).inside = true) :
    0 < s.shared.outstanding := by
  have hle := le_sum (fun l : Pc => flag_nonneg l.inside) s.pc p
  rw [← h.outstanding, hp] at hle
  exact hle

theorem Counted.not_inside (h : Counted s) (hout : s.shared.outstanding = 0) :
    (s.pc p).inside = false := by
  rw [Bool.eq_false_iff]
  intro hp
  have := h.pos_of_inside hp
  omega

theorem Counted.committing_of (h : Counted s) (hp : (s.pc p).commits = true) :
    s.shared.committing = true :=
  of_flag_sum h.committing hp

end Counts

theorem inside_access (h : Access log l log' l') :
    log'.outstanding - log.outstanding = flag l'.inside - flag l.inside := by
  cases h with
  | call i | callIn i => cases i <;> exact Int.sub_self _
  | enter =>
    show log.outstanding + 1 - log.outstanding = 1
    omega
  | last _ hout =>
    show 0 - log.outstanding = 0 - 1
    rw [hout]
  | leave =>
    show log.outstanding - 1 - log.outstanding = 0 - 1
    omega
  | panic l e hl =>
    rw [hl]
    exact Int.sub_self _
  | _ => exact Int.sub_self _

theorem commits_access (h : Access log l log' l')
    (hset : l.commits = true → log.committing = true) :
    flag log'.committing - flag log.committing = flag l'.commits - flag l.commits := by
  cases h with
  | call i | callIn i => cases i <;> exact Int.sub_self _
  | last hoff =>
    show flag true - flag log.committing = 1 - 0
    rw [hoff]
    rfl
  | panic l e hl => cases l <;> first | exact Int.sub_self _ | cases hl
  | done =>
    show flag false - flag log.committing = 0 - 1
    rw [hset rfl]
    rfl
  | _ => exact Int.sub_self _

theorem outstanding_tally :
    Tally prog (fun l => flag l.inside) Log.outstanding (fun _ : State n => True) where
  access s p f i _ _ _ hc := inside_access (access_of_code hc s.shared (s.killed p) i)
  env s i x _ hx := by cases hx
  next l l' hl := by
    cases l <;> cases hl
    case eUnlock doCommit => cases doCommit <;> rfl
    all_goals rfl

theorem committing_tally :
    Tally prog (fun l => flag l.commits) (fun log => flag log.committing) (fun _ : State n => True) where
  -- where the flag is cleared it was set: this process is one of those counted
  access s p f i _ hsum _ hc :=
    commits_access (access_of_code hc s.shared (s.killed p) i) fun hp => of_flag_sum hsum hp
  env s i x _ hx := by cases hx
  next l l' hl := by
    cases l <;> cases hl
    case eUnlock doCommit => cases doCommit <;> rfl
    all_goals rfl

theorem run_counted (h : LogRun s) : Counted s := by
  obtain ⟨logstart, nlog, h⟩ := h
  constructor
  · exact run_tally outstanding_tally rfl rfl (fun _ _ => trivial) h
  · exact run_tally committing_tally rfl rfl (fun _ _ => trivial) h

/-! ## §4. The log between transactions. -/

structure LogOk (log : Log) : Prop where
  alone : log.committing = true → log.outstanding = 0
  nodup : log.lh.Nodup

/-- The commit has emptied the log, or found it empty. -/
def Pc.emptied : Pc → Bool
  | .cErase | .dEnter | .dClear => true
  | _ => false

/-- The log is empty between transactions. -/
structure Empties {n : Nat} (s : State n) : Prop where
  between : s.shared.outstanding = 0 → s.shared.committing = false → s.shared.lh = []
  emptied : ∀ p, (s.pc p).emptied = true → s.shared.lh = []

theorem emptied_commits {l : Pc} (h : l.emptied = true) : l.commits = true := by
  cases l <;> first | rfl | cases h

section Steps

variable {n : Nat} {s s' : State n} {a : Act n Input}

theorem logOk_access {log log' : Log} {l l' : Pc} (ha : Access log l log' l') (h : LogOk log) :
    LogOk log' := by
  have hoff : log.committing = false → log.committing = true → False := by
    intro hoff hon
    rw [hon] at hoff
    cases hoff
  cases ha with
  | enter hc | leave hc => exact ⟨fun hon => (hoff hc hon).elim, h.nodup⟩
  | append b _ hb =>
    refine ⟨h.alone, ?_⟩
    show (log.lh ++ [b]).Nodup
    rw [nodup_append]
    refine ⟨h.nodup, nodup_singleton b, ?_⟩
    intro c hmem d hd hcd
    rw [mem_singleton.mp hd] at hcd
    exact hb (hcd ▸ hmem)
  | last => exact ⟨fun _ => rfl, h.nodup⟩
  | clear => exact ⟨h.alone, nodup_nil⟩
  | done => exact ⟨nofun, h.nodup⟩
  | _ => exact h

theorem logOk_step (h : LogOk s.shared) (hs : Step prog a s s') : LogOk s'.shared := by
  rcases hs.moves with ⟨p, f, i, _, _, hc, hx, _⟩ | ⟨i, hx, _⟩ | ⟨p, l, _, _, _, hx, _⟩ | ⟨hx, _⟩
  · rw [hx]
    exact logOk_access (access_of_code hc _ _ _) h
  · cases hx
  · rw [hx]
    exact h
  · rw [hx]
    exact h

theorem empties_access (hcount : Counted s) (hok : LogOk s.shared) (h : Empties s) {p : Fin n}
    {log' : Log} {l' : Pc} (ha : Access s.shared (s.pc p) log' l') :
    (log'.outstanding = 0 → log'.committing = false → log'.lh = []) ∧
    (l'.emptied = true → log'.lh = []) ∧
    (log'.lh = s.shared.lh ∨ log'.lh = [] ∨ s.shared.committing = false) := by
  have hnonneg := hcount.nonneg
  have hempty := h.emptied p
  have hbetween := h.between
  have halone := hok.alone
  generalize s.pc p = l at ha hempty
  generalize s.shared = log at ha hnonneg hbetween hempty halone
  cases ha with
  | call i | callIn i => cases i <;> exact ⟨hbetween, nofun, .inl rfl⟩
  | enter hoff =>
    refine ⟨?_, nofun, .inr (.inr hoff)⟩
    intro hzero
    have : log.outstanding + 1 = 0 := hzero
    omega
  | append b hout =>
    refine ⟨?_, nofun, .inr (.inr ?_)⟩
    · intro hzero
      have : log.outstanding = 0 := hzero
      omega
    · rw [Bool.eq_false_iff]
      intro hon
      have := halone hon
      omega
  | last => exact ⟨nofun, nofun, .inl rfl⟩
  | leave _ hout =>
    refine ⟨?_, nofun, .inl rfl⟩
    intro hzero
    have : log.outstanding - 1 = 0 := hzero
    omega
  | empty hlh => exact ⟨hbetween, fun _ => hlh, .inl rfl⟩
  | clear => exact ⟨fun _ _ => rfl, fun _ => rfl, .inr (.inl rfl)⟩
  | erase => exact ⟨hbetween, fun _ => hempty rfl, .inl rfl⟩
  | done => exact ⟨fun _ _ => hempty rfl, nofun, .inl rfl⟩
  | _ => exact ⟨hbetween, nofun, .inl rfl⟩

theorem emptied_next {l l' : Pc} (hl : (prog.code l).next = some l') (h : l'.emptied = true) :
    l.emptied = true := by
  cases l <;> cases hl <;> first | rfl | cases h | skip
  next doCommit => cases doCommit <;> cases h

theorem empties_step (hcount : Counted s) (hok : LogOk s.shared) (h : Empties s)
    (hs : Step prog a s s') : Empties s' := by
  rcases hs.moves with ⟨p, f, i, _, _, hc, hx, hpc⟩ | ⟨i, hx, _⟩ | ⟨p, l, _, _, hl, hx, hpc⟩ | ⟨hx, hpc⟩
  · obtain ⟨hbetween, hown, hlh⟩ := 
      empties_access hcount hok h (access_of_code hc s.shared (s.killed p) i)
    rw [← hx] at hbetween hown hlh
    refine ⟨hbetween, ?_⟩
    intro q hq
    rw [hpc] at hq
    by_cases hqp : q = p
    · subst hqp
      rw [update_self] at hq
      exact hown hq
    · -- another committer: the log is not written to meanwhile
      rw [update_of_ne hqp] at hq
      rcases hlh with hlh | hlh | hoff
      · rw [hlh]
        exact h.emptied q hq
      · exact hlh
      · rw [hcount.committing_of (emptied_commits hq)] at hoff
        cases hoff
  · cases hx
  · refine ⟨hx ▸ h.between, ?_⟩
    intro q hq
    rw [hx]
    rw [hpc] at hq
    by_cases hqp : q = p
    · subst hqp
      rw [update_self] at hq
      exact h.emptied q (emptied_next hl hq)
    · rw [update_of_ne hqp] at hq
      exact h.emptied q hq
  · exact ⟨hx ▸ h.between, fun q hq => hx ▸ h.emptied q (hpc ▸ hq)⟩

end Steps

theorem run_logOk (h : LogRun s) : LogOk s.shared := by
  obtain ⟨logstart, nlog, h⟩ := h
  apply Reachable.invariant (fun s : State n => LogOk s.shared) _ _ h
  · intro s hs
    rw [hs]
    exact ⟨nofun, nodup_nil⟩
  · intro s s' hok ⟨a, hs, _⟩
    exact logOk_step hok hs

theorem run_empties (h : LogRun s) : Empties s := by
  obtain ⟨logstart, nlog, h⟩ := h
  apply Reachable.invariant_with (fun s : State n => Counted s ∧ LogOk s.shared) Empties _ _ _ h
  · exact fun s hs => ⟨run_counted ⟨_, _, hs⟩, run_logOk ⟨_, _, hs⟩⟩
  · intro s hs
    rw [hs]
    exact ⟨fun _ _ => rfl, fun _ _ => rfl⟩
  · intro s s' hk _ hinv ⟨a, hs, _⟩
    exact empties_step hk.1 hk.2 hinv hs

/-! ## §5. Sleeping in begin_op. -/

/-- Why a process sleeps on `&log`: a commit, or lack of space. -/
def waits (_ : Chan) (log : Log) : Prop :=
  log.committing = true ∨ (log.lh.length : Int) + (log.outstanding + 1) * MAXOPBLOCKS > LOGSIZE

def owes : Pc → Chan → Prop
  | .eWake, _ | .dWake, _ => True
  | _, _ => False

theorem waits_iff (c : Chan) (log : Log) :
    waits c log ↔ log.committing = true ∨ log.lh.length + (log.outstanding + 1) * 10 > 30 :=
  Iff.rfl

theorem waits_of_beginOp {log : Log} (h : beginOp log = none) (c : Chan) : waits c log := by
  unfold beginOp at h
  split at h
  · next hc => exact .inl hc
  · split at h
    · next hfull => exact .inr hfull
    · cases h

/-- What begin_op has found out before it sleeps. -/
def Tested (l : Pc) (log : Log) (_ : Bool) : Prop := l = .bSleep → waits .log log

theorem tested_rule : Rule prog held (fun _ => True) Tested (Counted (n := n)) where
  access l f hc _ log killed i _ := by
    have ha := access_of_code hc log killed i
    generalize f log killed i = r at ha
    obtain ⟨log', l'⟩ := r
    cases ha with
    | wait hnone => exact fun _ => waits_of_beginOp hnone _
    | call i | callIn i => cases i <;> exact fun hl => nomatch hl
    | _ => exact fun hl => nomatch hl
  outside s p f i hcount hm hc hheld := by
    refine ⟨fun _ => trivial, ?_⟩
    intro l k h hl
    have hset := fun hp => hcount.committing_of (p := p) hp
    have hw := h hl
    generalize s.pc p = l₀ at hc hheld hset
    cases l₀ <;> cases hc
    -- the list is cleared, but the flag is set
    case cClear => exact .inl (hset rfl)
    all_goals first | exact hw | cases hheld
  env x i x' hx := by cases hx
  acquire l l' hc x killed _ := by
    cases l <;> cases hc <;> nofun
  release l l' hc x killed h := trivial
  sleep l c l' hc x killed := by
    refine ⟨fun _ => trivial, fun _ => ?_⟩
    cases l <;> cases hc
    exact fun hl => nomatch hl
  wakeup l c l' hc x killed h := by
    cases l <;> cases hc <;> exact fun hl => nomatch hl

structure Known {n : Nat} (s : State n) : Prop where
  lock : LockInv prog held s
  tested : RuleInv (fun _ => True) Tested s
  counted : Counted s

theorem waits_access {c : Chan} (ha : Access log l log' l')
    (hheld : held l = true) (h : waits c log ∨ owes l c) : waits c log' ∨ owes l' c := by
  have hfull := fun hw => (waits_iff c log).mp hw
  cases ha with
  | enter =>
    refine .inl ((hfull (h.resolve_right id)).imp_right fun hfull => ?_)
    show (log.lh.length : Int) + (log.outstanding + 1 + 1) * 10 > 30
    omega
  | append b =>
    refine .inl ((hfull (h.resolve_right id)).imp_right fun hfull => ?_)
    show ((log.lh ++ [b]).length : Int) + (log.outstanding + 1) * 10 > 30
    rw [length_append, length_singleton]
    omega
  | last => exact .inl (.inl rfl)
  | leave | done => exact .inr trivial
  | wait | absorb => exact .inl (h.resolve_right id)
  | panic l e hl =>
    refine .inl (h.resolve_right fun howes => ?_)
    cases l <;> first | exact howes | cases hl
  | _ => cases hheld

theorem pays : Pays prog held waits owes (Known (n := n)) where
  sleep s p c l hk hm hc := by
    have ht : held (s.pc p) = true → Tested (s.pc p) s.shared (s.killed p) := fun hl =>
      hk.tested.holder p (hk.lock.of_running hm hl)
    generalize s.pc p = l₀ at hc ht
    cases l₀ <;> cases hc
    exact ht rfl rfl
  access s p f i c hk hm hc hheld h :=
    waits_access (access_of_code hc s.shared (s.killed p) i) hheld h
  outside s p f i c hk hm hc hheld h := by
    have hset := fun hp => hk.counted.committing_of (p := p) hp
    generalize s.pc p = l at hc hheld hset
    cases l <;> cases hc
    case cClear => exact .inl (hset rfl)
    all_goals first | exact h | cases hheld
  env x x' i c hx := by cases hx
  wakeup l c l' c' hc h := by
    cases l <;> cases hc <;> exact .inl rfl
  paid l hl c h := by
    rcases hl with ⟨l', hc⟩ | ⟨c', l', hc⟩
    · cases l <;> cases hc <;> cases h
    · cases l <;> cases hc
      cases h

theorem run_waits (h : LogRun s) (hfree : s.lock = none) {p : Fin n}
    {c : Chan} (hp : s.mode p = .asleep c) : waits c s.shared := by
  obtain ⟨logstart, nlog, h⟩ := h
  apply no_lost_wakeup disciplined pays rfl _ h hfree hp
  intro s hs
  refine ⟨run_lockInv disciplined rfl hs, ?_, run_counted ⟨_, _, hs⟩⟩
  exact run_ruleInv disciplined tested_rule rfl trivial (fun _ _ _ ht => ht)
    (fun s hs => run_counted ⟨_, _, hs⟩) hs

/-! ## §6. Runs. -/

theorem outstanding_access (ha : Access log l log' l')
    (hl : l.inside = false) (hon : log.committing = true) :
    log'.outstanding = log.outstanding := by
  cases ha with
  | enter hoff =>
    rw [hon] at hoff
    cases hoff
  | last | leave => cases hl
  | _ => rfl

theorem outstanding_step {s s' : State n} {a : Act n Input}
    (hout : ∀ p, (s.pc p).inside = false) (hon : s.shared.committing = true)
    (hs : Step prog a s s') : s'.shared.outstanding = s.shared.outstanding := by
  rcases hs.moves with ⟨p, f, i, _, _, hc, hx, _⟩ | ⟨i, hx, _⟩ | ⟨p, l, _, _, _, hx, _⟩ | ⟨hx, _⟩
  · rw [hx]
    exact outstanding_access (access_of_code hc _ _ _) (hout p) hon
  · cases hx
  · rw [hx]
  · rw [hx]

/-- **The admission protocol of the log.** In every run: while `log.committing` is set, no operation
is outstanding and none starts; no block is listed twice; and while the lock is free, nobody sleeps
in begin_op without a reason. -/
theorem log_admission {n : Nat} {s : State n} (h : LogRun s) :
    (s.shared.committing = true → s.shared.outstanding = 0 ∧
      (∀ p, (s.pc p).inside = false) ∧
      ∀ a s', Step prog a s s' → ∀ p, (s'.pc p).inside = false) ∧
    s.shared.lh.Nodup ∧
    (s.lock = none → ∀ p, s.mode p = .asleep .log →
      s.shared.committing = true ∨ 0 < s.shared.outstanding) := by
  have hcount := run_counted h
  have hok := run_logOk h
  refine ⟨?_, hok.nodup, ?_⟩
  · intro hon
    have hout := hok.alone hon
    have hnobody := fun p => hcount.not_inside (p := p) hout
    refine ⟨hout, hnobody, ?_⟩
    intro a s' hs p
    have hs' : LogRun s' := by
      obtain ⟨logstart, nlog, h⟩ := h
      exact ⟨logstart, nlog, h.next ⟨a, hs, trivial⟩⟩
    apply (run_counted hs').not_inside
    rw [outstanding_step hnobody hon hs, hout]
  · intro hfree p hp
    rcases run_waits h hfree hp with hon | hfull
    · exact .inl hon
    · -- an empty log has room for one more operation
      by_contra hno
      rw [not_or, Bool.not_eq_true] at hno
      have hzero : s.shared.outstanding = 0 := by
        have := hcount.nonneg
        omega
      rw [(run_empties h).between hzero hno.1, hzero] at hfull
      exact absurd hfull (by decide)

def beginMeetsCommit : List (Act 2 Input) :=
  [.beginOp, .beginOp, .beginOp, .beginOp, .logWrite 45, .endOp, .endOp, .endOp, .endOp, .endOp,
    .endOp, .endOp].map (Act.go 0) ++ List.replicate 5 (.go 1 .beginOp)

theorem log_admission_beginMeetsCommit : ∃ s : State 2, LogRun s ∧ s.lock = none ∧
    s.mode 1 = .asleep .log ∧ s.shared.committing = true ∧ s.shared.outstanding = 0 ∧
    s.shared.lh = [45] := by
  have hacts : (runActs prog (fun _ _ => True) (start (initlog 2 30) .idle) beginMeetsCommit).any
      (fun s : State 2 => s.lock = none ∧ s.mode 1 = .asleep .log ∧
        s.shared.committing = true ∧ s.shared.lh = [45]) = true := by
    decide +kernel
  obtain ⟨s, hs, htest⟩ := exists_run_runActs hacts
  obtain ⟨hfree, hmode, hon, hlh⟩ := of_decide_eq_true htest
  have hrun : LogRun s := ⟨_, _, hs⟩
  exact ⟨s, hrun, hfree, hmode, hon, ((log_admission hrun).1 hon).1, hlh⟩

end Xv6.LogLayer.Admission
