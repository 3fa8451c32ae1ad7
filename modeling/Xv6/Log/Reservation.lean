/-
  Xv6.Log.Reservation — the log space that `begin_op` reserves.

  mkfs makes the log LOGSIZE blocks long with the header among them, so the bounds of
  `begin_op` and `log_write` differ by one block.
-/
import Xv6.Log.CrashAtomicity

namespace Xv6.LogLayer

open Lib Machine List

/-! ## §1. What the operations of a run have logged. -/

namespace Machine

def loggedBlocks (m : Machine) : Finset Nat := (m.txn.map Write.blockno).toFinset

def loggedBy (m : Machine) (op : Nat) : Finset Nat :=
  ((m.txn.filter fun w => w.op = op).map Write.blockno).toFinset

/-- No operation has logged more than `k` distinct blocks. -/
def OpsWithin (m : Machine) (k : Nat) : Prop := ∀ w ∈ m.txn, (m.loggedBy w.op).card ≤ k

instance (m : Machine) (k : Nat) : Decidable (m.OpsWithin k) :=
  inferInstanceAs (Decidable (∀ w ∈ m.txn, (m.loggedBy w.op).card ≤ k))

/-- An open operation may log `b` as one of its `k` blocks. -/
def MayLog (m : Machine) (k op b : Nat) : Prop :=
  op ∈ m.active ∧ (insert b (m.loggedBy op)).card ≤ k

instance (m : Machine) (k op b : Nat) : Decidable (m.MayLog k op b) :=
  inferInstanceAs (Decidable (_ ∧ _))

def unused (m : Machine) (op : Nat) : Nat := MAXOPBLOCKS - 1 - (m.loggedBy op).card

end Machine

def StepWithin (k : Nat) (m m' : Machine) : Prop := Step m m' ∧ m'.OpsWithin k

/-- The runs on the layout of mkfs, `sb.nlog = LOGSIZE`. -/
abbrev RunWithin (logstart k : Nat) : Machine → Prop :=
  Reachable (Init logstart LOGSIZE) (StepWithin k)

variable {m : Machine} {logstart : Nat}

theorem RunWithin.reachable {logstart k : Nat} (h : RunWithin logstart k m) :
    Reachable (Init logstart LOGSIZE) Step m := by
  induction h with
  | start h => exact .start h
  | next _ hs ih => exact ih.next hs.1

section Logged

variable {m : Machine} {op b : Nat} {data : Block} {log : Log} {pin : Bool}

theorem mem_loggedBlocks : b ∈ m.loggedBlocks ↔ ∃ w ∈ m.txn, w.blockno = b := by
  simp [Machine.loggedBlocks]

theorem mem_loggedBy : b ∈ m.loggedBy op ↔ ∃ w ∈ m.txn, w.op = op ∧ w.blockno = b := by
  simp [Machine.loggedBy, and_assoc]

theorem loggedBlocks_logged :
    (m.logged op b data log pin).loggedBlocks = insert b m.loggedBlocks := by
  ext a
  simp [Machine.loggedBlocks, Machine.logged, eq_comm]

theorem loggedBy_logged : (m.logged op b data log pin).loggedBy op = insert b (m.loggedBy op) := by
  ext a
  simp [Machine.loggedBy, Machine.logged, filter_append, eq_comm]

theorem loggedBy_logged_of_ne {other : Nat} (hne : other ≠ op) :
    (m.logged op b data log pin).loggedBy other = m.loggedBy other := by
  simp [Machine.loggedBy, Machine.logged, filter_append, hne.symm]

end Logged

/-! ## §2. `lh` lists the blocks of the open transaction. -/

/-- What a run says about the operations, whatever they log. -/
structure Tracked (m : Machine) : Prop where
  size : m.log.size = LOGSIZE
  opened : ∀ op ∈ m.active, op < m.nextOp
  writer : ∀ w ∈ m.txn, w.op < m.nextOp
  listed : m.pc = .idle → ∀ b ∈ m.log.lh, b ∈ m.loggedBlocks
  drained : m.pc = .idle → m.active = [] → m.log.lh = []

theorem advance_frame {m m' : Machine} (h : m.advance = some m') :
    m'.active = m.active ∧ m'.txn = m.txn ∧ m'.nextOp = m.nextOp ∧ m'.log.size = m.log.size ∧
      (m'.pc = .idle → m.pc = .commitDone ∧ m'.log.lh = m.log.lh) := by
  unfold Machine.advance at h
  split at h
  case h_2 | h_6 | h_7 | h_9 =>
    split at h <;> obtain rfl := Option.some.inj h <;>
      exact ⟨rfl, rfl, rfl, rfl, by simp [Machine.writeLogEntry]⟩
  case h_4 | h_5 => exact absurd h (by simp)
  case h_11 hpc => obtain rfl := Option.some.inj h; exact ⟨rfl, rfl, rfl, rfl, fun _ => ⟨hpc, rfl⟩⟩
  all_goals obtain rfl := Option.some.inj h; exact ⟨rfl, rfl, rfl, rfl, by simp⟩

section Tracking

variable {m : Machine}

theorem Tracked.of_empty {m' : Machine} (h : Tracked m) (hsize : m'.log.size = m.log.size)
    (hnext : m'.nextOp = m.nextOp) (hact : m'.active = m.active) (htxn : m'.txn = m.txn)
    (hlh : m'.pc = .idle → m'.log.lh = []) : Tracked m' := by
  refine ⟨hsize.trans h.size, ?_, ?_, ?_, fun hpc _ => hlh hpc⟩
  · intro op hop
    rw [hnext]
    exact h.opened op (hact ▸ hop)
  · intro w hw
    rw [hnext]
    exact h.writer w (htxn ▸ hw)
  · intro hpc b hb
    rw [hlh hpc] at hb
    exact absurd hb (by simp)

theorem tracked_beginOp (h : Tracked m) (hpc : m.pc = .idle) {log : Log}
    (hlog : beginOp m.log = some log) :
    Tracked { m with log := log, active := m.nextOp :: m.active, nextOp := m.nextOp + 1 } := by
  obtain ⟨_, _, rfl⟩ := beginOp_eq_some hlog
  refine ⟨h.size, ?_, ?_, fun _ => h.listed hpc, fun _ hnil => absurd hnil (by simp)⟩
  · intro op hop
    rcases mem_cons.mp hop with rfl | hop
    · show m.nextOp < m.nextOp + 1
      omega
    · show op < m.nextOp + 1
      have := h.opened op hop
      omega
  · intro w hw
    show w.op < m.nextOp + 1
    have := h.writer w hw
    omega

theorem tracked_logWrite (h : Tracked m) (hpc : m.pc = .idle) {op b : Nat} {data : Block}
    {log : Log} {pin : Bool} (hop : op ∈ m.active) (hlog : logWrite m.log b = .ok (log, pin)) :
    Tracked (m.logged op b data log pin) := by
  obtain ⟨_, _, _, hcase⟩ := logWrite_eq_ok hlog
  have hsize : log.size = m.log.size := by
    rcases hcase with ⟨_, _, rfl⟩ | ⟨_, _, rfl⟩ <;> rfl
  have hlh : ∀ a ∈ log.lh, a ∈ insert b m.loggedBlocks := by
    intro a ha
    rcases hcase with ⟨_, _, rfl⟩ | ⟨_, _, rfl⟩
    · exact Finset.mem_insert_of_mem (h.listed hpc a ha)
    · rcases mem_append.mp ha with ha | ha
      · exact Finset.mem_insert_of_mem (h.listed hpc a ha)
      · rw [mem_singleton.mp ha]
        exact Finset.mem_insert_self _ _
  refine ⟨hsize.trans h.size, h.opened, ?_, ?_, fun _ hnil => ?_⟩
  · intro w hw
    rcases mem_append.mp hw with hw | hw
    · exact h.writer w hw
    · rw [mem_singleton.mp hw]
      exact h.opened op hop
  · intro _ a ha
    rw [loggedBlocks_logged]
    exact hlh a ha
  · have hnil' : m.active = [] := hnil
    rw [hnil'] at hop
    exact absurd hop (by simp)

theorem tracked_endOp (h : Tracked m) (hout : m.log.outstanding = m.active.length)
    (hpc : m.pc = .idle) {op : Nat} {log : Log} {doCommit : Bool} (hop : op ∈ m.active)
    (hlog : endOp m.log = .ok (log, doCommit)) : Tracked (m.finish op log doCommit) := by
  have hopened : ∀ a ∈ m.active.erase op, a < m.nextOp :=
    fun a ha => h.opened a (mem_of_mem_erase ha)
  obtain ⟨_, ⟨_, rfl, rfl⟩ | ⟨hne, rfl, rfl⟩⟩ := endOp_eq_ok hlog
  · -- the last operation: the log goes to `commit()`
    exact ⟨h.size, hopened, fun w hw => by simp [Machine.finish] at hw,
      fun hi => by simp [Machine.finish] at hi, fun hi => by simp [Machine.finish] at hi⟩
  · refine ⟨h.size, hopened, h.writer, fun _ => h.listed hpc, fun _ hnil => ?_⟩
    have hnil' : m.active.erase op = [] := hnil
    have hlen : (m.active.erase op).length = m.active.length - 1 := length_erase_of_mem hop
    have hpos : 0 < m.active.length := length_pos_of_mem hop
    rw [hnil', length_nil] at hlen
    omega

end Tracking

theorem tracked_step {m m' : Machine} (hinv : Inv m) (h : Tracked m) (hs : Step m m') :
    Tracked m' := by
  cases hs with
  | beginOp hb hlog =>
    exact tracked_beginOp h (hinv.serving hb (.inr (beginOp_eq_some hlog).1)).1 hlog
  | logWrite hb hop hhome hlog =>
    exact tracked_logWrite h (hinv.serving hb (.inl (ne_nil_of_mem hop))).1 hop hlog
  | endOp hb hop hlog =>
    exact tracked_endOp h hinv.ops.outstanding
      (hinv.serving hb (.inl (ne_nil_of_mem hop))).1 hop hlog
  | advance hadv =>
    obtain ⟨hact, htxn, hnext, hsize, hidle⟩ := advance_frame hadv
    refine h.of_empty hsize hnext hact htxn (fun hi => ?_)
    have hp := hinv.phase
    rw [(hidle hi).1] at hp
    rw [(hidle hi).2]
    exact hp.1.lh
  | bread b | evict b hp => exact ⟨h.size, h.opened, h.writer, h.listed, h.drained⟩
  | crash =>
    exact ⟨h.size, fun op hop => by simp [Machine.crashed] at hop,
      fun w hw => by simp [Machine.crashed] at hw, fun hi => by simp [Machine.crashed] at hi,
      fun hi => by simp [Machine.crashed] at hi⟩
  | boot hpc =>
    refine h.of_empty rfl rfl rfl rfl (fun _ => ?_)
    have hp := hinv.phase
    rw [hpc] at hp
    obtain ⟨T, _, _, hlh, _⟩ := hp
    exact hlh

theorem tracked_init (h : Init logstart LOGSIZE m) : Tracked m := by
  obtain ⟨d, _, _, rfl⟩ := h
  exact ⟨rfl, by simp, by simp, by simp [initlog], by simp [initlog]⟩

theorem reachable_tracked (h : Reachable (Init logstart LOGSIZE) Step m) : Tracked m :=
  h.invariant_with Inv Tracked (fun _ hr => reachable_inv hr) (fun _ hm => tracked_init hm)
    (fun _ _ hinv _ ht hs => tracked_step hinv ht hs)

theorem length_lh (hinv : Inv m) (h : Tracked m) (hpc : m.pc = .idle) :
    m.log.lh.length = m.loggedBlocks.card := by
  have hs := hinv.phase
  rw [hpc] at hs
  have heq : m.log.lh.toFinset = m.loggedBlocks := by
    ext b
    rw [mem_toFinset]
    refine ⟨h.listed hpc b, fun hb => ?_⟩
    obtain ⟨w, hw, rfl⟩ := mem_loggedBlocks.mp hb
    exact hs.touched w hw
  rw [← heq, toFinset_card_of_nodup hs.fits.nodup]

theorem idle_of_active (hinv : Inv m) {op : Nat} (hop : op ∈ m.active) : m.pc = .idle := by
  have hne : ∀ q : Quiet m, False := by
    intro q
    rw [q.active] at hop
    exact absurd hop (by simp)
  have hp := hinv.phase
  cases hpc : m.pc with
  | idle => rfl
  | recReadHead | recInstall k | recWriteHead | recovered =>
    rw [hpc] at hp; obtain ⟨T, hT, _⟩ := hp; exact (hne hT.quiet).elim
  | commit | writeLog k | writeHead | install k => rw [hpc] at hp; exact (hne hp.quiet).elim
  | eraseHead | commitDone => rw [hpc] at hp; exact (hne hp.1.quiet).elim

/-- `log_write` panics exactly when the log blocks are used up. -/
theorem logWrite_tooBig_iff (hinv : Inv m) (h : Tracked m) (hpc : m.pc = .idle) (b : Nat) :
    logWrite m.log b = .error .tooBigATransaction ↔ LOGSIZE - 1 ≤ m.loggedBlocks.card := by
  have hsize := h.size
  rw [← length_lh hinv h hpc]
  unfold logWrite
  split
  · next hfull =>
    refine ⟨fun _ => ?_, fun _ => rfl⟩
    rcases hfull with hfull | hfull
    · omega
    · rw [hsize] at hfull
      omega
  · next hroom =>
    have hlt : ¬ LOGSIZE - 1 ≤ m.log.lh.length := by
      rw [hsize] at hroom
      omega
    refine ⟨fun herr => ?_, fun hle => absurd hle hlt⟩
    split at herr
    · exact absurd herr (by simp)
    · split at herr <;> exact absurd herr (by simp)

/-! ## §3. The potential: listed blocks and unused reservations. -/

/-- The blocks listed and those that the open operations may still log leave
the last log block but one free. -/
def Roomy (m : Machine) : Prop :=
  m.pc = .idle → m.log.lh.length + (m.active.map m.unused).sum ≤ LOGSIZE - 2

section Room

variable {m : Machine}

theorem sum_unused_le (m : Machine) (ops : List Nat) :
    (ops.map m.unused).sum ≤ ops.length * (MAXOPBLOCKS - 1) := by
  induction ops with
  | nil => simp
  | cons op ops ih =>
    have : m.unused op ≤ MAXOPBLOCKS - 1 := Nat.sub_le _ _
    rw [map_cons, sum_cons, length_cons, Nat.succ_mul]
    omega

theorem roomy_beginOp (hinv : Inv m) (ht : Tracked m) (hpc : m.pc = .idle) {log : Log}
    (hlog : beginOp m.log = some log) :
    Roomy { m with log := log, active := m.nextOp :: m.active, nextOp := m.nextOp + 1 } := by
  obtain ⟨_, hadm, rfl⟩ := beginOp_eq_some hlog
  intro _
  show m.log.lh.length + ((m.nextOp :: m.active).map m.unused).sum ≤ LOGSIZE - 2
  have hout := hinv.ops.outstanding
  have hsum := sum_unused_le m (m.nextOp :: m.active)
  rw [length_cons] at hsum
  by_cases hnil : m.active = []
  · have hlh := ht.drained hpc hnil
    rw [hlh, hnil]
    rw [hnil] at hsum
    simp only [length_nil, LOGSIZE, MAXOPBLOCKS] at hsum ⊢
    omega
  · have hpos : 0 < m.active.length := length_pos_of_ne_nil hnil
    rw [hout] at hadm
    simp only [LOGSIZE, MAXOPBLOCKS] at hadm hsum ⊢
    omega

theorem roomy_logWrite (hinv : Inv m) (h : Roomy m) (hpc : m.pc = .idle) {op b : Nat}
    {data : Block} {log : Log} {pin : Bool} (hop : op ∈ m.active)
    (hlog : logWrite m.log b = .ok (log, pin))
    (hbound : (m.logged op b data log pin).OpsWithin (MAXOPBLOCKS - 1)) :
    Roomy (m.logged op b data log pin) := by
  intro _
  have hs := hinv.phase
  rw [hpc] at hs
  have hroom := h hpc
  have hcard := hbound ⟨op, b, data⟩ (mem_append.mpr (.inr (by simp)))
  rw [loggedBy_logged] at hcard
  -- no operation gains room
  have hle : ∀ o ∈ m.active, (m.logged op b data log pin).unused o ≤ m.unused o := by
    intro o _
    unfold Machine.unused
    by_cases ho : o = op
    · rw [ho, loggedBy_logged]
      have := Finset.card_le_card (Finset.subset_insert b (m.loggedBy op))
      omega
    · rw [loggedBy_logged_of_ne ho]
  show log.lh.length + (m.active.map (m.logged op b data log pin).unused).sum ≤ LOGSIZE - 2
  obtain ⟨_, _, _, ⟨_, _, heq⟩ | ⟨hb, _, heq⟩⟩ := logWrite_eq_ok hlog
  · have := sum_le_sum hle
    rw [heq]
    rw [heq] at this
    omega
  · -- a block new to the log is new to the operation
    have hnew : b ∉ m.loggedBy op := by
      intro hmem
      obtain ⟨w, hw, _, rfl⟩ := mem_loggedBy.mp hmem
      exact hb (hs.touched w hw)
    rw [Finset.card_insert_of_notMem hnew] at hcard
    have hlt : (m.logged op b data log pin).unused op < m.unused op := by
      unfold Machine.unused
      rw [loggedBy_logged, Finset.card_insert_of_notMem hnew]
      omega
    have := sum_lt_sum _ _ hle ⟨op, hop, hlt⟩
    have hlen : log.lh.length = m.log.lh.length + 1 := by
      rw [heq]
      exact length_append
    omega

theorem roomy_endOp (h : Roomy m) (hpc : m.pc = .idle) {op : Nat} {log : Log} {doCommit : Bool}
    (hop : op ∈ m.active) (hlog : endOp m.log = .ok (log, doCommit)) :
    Roomy (m.finish op log doCommit) := by
  have hroom := h hpc
  intro hi
  obtain ⟨_, ⟨_, rfl, rfl⟩ | ⟨hne, rfl, rfl⟩⟩ := endOp_eq_ok hlog
  · exact absurd hi (by simp [Machine.finish])
  · show m.log.lh.length + ((m.active.erase op).map m.unused).sum ≤ LOGSIZE - 2
    have := sum_map_erase m.unused hop
    omega

theorem Roomy.of_empty (hact : m.active = []) (hlh : m.pc = .idle → m.log.lh = []) : Roomy m := by
  intro hpc
  rw [hact, hlh hpc]
  simp

end Room

theorem roomy_step {m m' : Machine} (hinv : Inv m) (ht : Tracked m) (h : Roomy m)
    (hs : StepWithin (MAXOPBLOCKS - 1) m m') : Roomy m' := by
  obtain ⟨hs, hbound⟩ := hs
  cases hs with
  | beginOp hb hlog =>
    exact roomy_beginOp hinv ht (hinv.serving hb (.inr (beginOp_eq_some hlog).1)).1 hlog
  | logWrite hb hop hhome hlog =>
    exact roomy_logWrite hinv h (hinv.serving hb (.inl (ne_nil_of_mem hop))).1 hop hlog
      hbound
  | endOp hb hop hlog =>
    exact roomy_endOp h (hinv.serving hb (.inl (ne_nil_of_mem hop))).1 hop hlog
  | advance hadv =>
    obtain ⟨hact, htxn, hnext, hsize, hidle⟩ := advance_frame hadv
    intro hi
    have hp := hinv.phase
    rw [(hidle hi).1] at hp
    refine Roomy.of_empty ?_ (fun _ => ?_) hi
    · rw [hact]
      exact hp.1.quiet.active
    · rw [(hidle hi).2]
      exact hp.1.lh
  | bread b => exact h
  | evict b hp => exact h
  | crash => exact fun hi => absurd hi (by simp [Machine.crashed])
  | boot hpc =>
    have hp := hinv.phase
    rw [hpc] at hp
    obtain ⟨T, hT, _, hlh, _⟩ := hp
    exact Roomy.of_empty hT.quiet.active (fun _ => hlh)

theorem run_roomy (h : RunWithin logstart (MAXOPBLOCKS - 1) m) : Roomy m := by
  refine h.invariant_with (fun m => Inv m ∧ Tracked m) Roomy (fun _ hr => ?_) ?_ ?_
  · exact ⟨reachable_inv (RunWithin.reachable hr), reachable_tracked (RunWithin.reachable hr)⟩
  · rintro _ ⟨d, _, _, rfl⟩ hi
    exact absurd hi (by simp)
  · exact fun _ _ hk _ hr hs => roomy_step hk.1 hk.2 hr hs

/-- **When the log space suffices.** On the layout of mkfs, with operations of at most MAXOPBLOCKS
blocks, `log_write` panics exactly when LOGSIZE - 1 blocks have been logged since the last commit;
with MAXOPBLOCKS - 1 blocks each, never. -/
theorem log_space_suffices (logstart : Nat) (m : Machine) :
    (RunWithin logstart MAXOPBLOCKS m → ∀ op b, m.MayLog MAXOPBLOCKS op b →
      (logWrite m.log b ≠ .error .tooBigATransaction ↔
        m.loggedBlocks.card < LOGSIZE - 1)) ∧
    (RunWithin logstart (MAXOPBLOCKS - 1) m → ∀ op b, m.MayLog (MAXOPBLOCKS - 1) op b →
      logWrite m.log b ≠ .error .tooBigATransaction) := by
  have key : ∀ k, RunWithin logstart k m → ∀ op b, m.MayLog k op b →
      m.pc = .idle ∧ (logWrite m.log b ≠ .error .tooBigATransaction ↔
        m.loggedBlocks.card < LOGSIZE - 1) := by
    intro k hrun op b hmay
    have hinv := reachable_inv hrun.reachable
    have ht := reachable_tracked hrun.reachable
    have hpc := idle_of_active hinv hmay.1
    refine ⟨hpc, ?_⟩
    rw [ne_eq, logWrite_tooBig_iff hinv ht hpc b]
    omega
  refine ⟨fun hrun op b hmay => (key _ hrun op b hmay).2, fun hrun op b hmay => ?_⟩
  obtain ⟨hpc, hiff⟩ := key _ hrun op b hmay
  have hroom := run_roomy hrun hpc
  have hlen := length_lh (reachable_inv hrun.reachable) (reachable_tracked hrun.reachable) hpc
  refine hiff.mpr ?_
  simp only [LOGSIZE, MAXOPBLOCKS] at hroom ⊢
  omega

/-! ## §4. Three operations that use their whole reservation. -/

/-- A list of `log_write`s, as long as they succeed and keep to `k` blocks an operation. -/
def logAll (k : Nat) : Machine → List (Nat × Nat) → Option Machine
  | m, [] => some m
  | m, (op, b) :: ws =>
    match logWrite m.log b with
    | .error _ => none
    | .ok (log, pin) =>
      let m' := m.logged op b (fun _ => 0) log pin
      if m.booted = true ∧ op ∈ m.active ∧ m.Home b ∧ m'.OpsWithin k then logAll k m' ws
      else none

theorem run_logAll {logstart k : Nat} (ws : List (Nat × Nat)) {m m' : Machine}
    (h : RunWithin logstart k m) (hws : logAll k m ws = some m') : RunWithin logstart k m' := by
  induction ws generalizing m with
  | nil => rw [← Option.some.inj hws]; exact h
  | cons w ws ih =>
    unfold logAll at hws
    split at hws
    · exact absurd hws (by simp)
    · next log pin hlog =>
      dsimp only at hws
      split at hws
      · next hok =>
        obtain ⟨hb, hop, hhome, hwithin⟩ := hok
        exact ih (h.next ⟨.logWrite hb hop hhome hlog, hwithin⟩) hws
      · exact absurd hws (by simp)

/-- The machine after recovery, boot and three `begin_op`s. -/
def threeOps : Machine :=
  let m := ((zeroMachine.advance.bind Machine.advance).bind Machine.advance).getD zeroMachine
  { m with
    pc := .idle, log := { initlog 2 LOGSIZE with outstanding := 3 }
    active := [2, 1, 0], nextOp := 3, base := m.disk }

theorem run_threeOps (k : Nat) : RunWithin 2 k threeOps := by
  have hno : ∀ m : Machine, m.txn = [] → m.OpsWithin k := by
    intro m hm w hw
    rw [hm] at hw
    exact absurd hw (by simp)
  have h0 : RunWithin 2 k zeroMachine := .start ⟨fun _ _ => 0, rfl, by decide, rfl⟩
  have h1 := ((h0.next ⟨.advance rfl, hno _ rfl⟩).next ⟨.advance rfl, hno _ rfl⟩).next
    ⟨.advance rfl, hno _ rfl⟩
  have h2 := (h1.next ⟨.boot rfl, hno _ rfl⟩).next ⟨.beginOp rfl rfl, hno _ rfl⟩
  exact (h2.next ⟨.beginOp rfl rfl, hno _ rfl⟩).next ⟨.beginOp rfl rfl, hno _ rfl⟩

def nearlyFull : List (Nat × Nat) := (List.range 29).map fun i => (i / 10, 50 + i)

theorem exists_run_nearlyFull : ∃ m, RunWithin 2 MAXOPBLOCKS m ∧ m.MayLog MAXOPBLOCKS 2 79 ∧
    logWrite m.log 79 = .error .tooBigATransaction := by
  cases hm : logAll MAXOPBLOCKS threeOps nearlyFull with
  | none => exact absurd (congrArg Option.isSome hm) (by decide +kernel)
  | some m =>
    have hlast : ∀ m', logAll MAXOPBLOCKS threeOps nearlyFull = some m' →
        m'.MayLog MAXOPBLOCKS 2 79 ∧ logWrite m'.log 79 = .error .tooBigATransaction := by
      decide +kernel
    exact ⟨m, run_logAll _ (run_threeOps _) hm, hlast m hm⟩

/-- **The reservation does not suffice**: the thirtieth block of three operations, ten each, finds
no log block. -/
theorem log_space_exhausted : ¬ ∀ m, RunWithin 2 MAXOPBLOCKS m → ∀ op b,
    m.MayLog MAXOPBLOCKS op b → logWrite m.log b ≠ .error .tooBigATransaction := by
  intro h
  obtain ⟨m, hrun, hmay, herr⟩ := exists_run_nearlyFull
  exact h m hrun 2 79 hmay herr

/-- With nine blocks an operation the same three fit. -/
theorem log_space_suffices_threeOps :
    threeOps.MayLog (MAXOPBLOCKS - 1) 2 79 ∧
      (logWrite threeOps.log 79 ≠ .error .tooBigATransaction ↔
        threeOps.loggedBlocks.card < LOGSIZE - 1) ∧
      logWrite threeOps.log 79 ≠ .error .tooBigATransaction :=
  ⟨by decide, (log_space_suffices 2 threeOps).1 (run_threeOps _) 2 79 (by decide),
    (log_space_suffices 2 threeOps).2 (run_threeOps _) 2 79 (by decide)⟩

end Xv6.LogLayer
