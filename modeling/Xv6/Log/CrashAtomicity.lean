/-
  Xv6.Log.CrashAtomicity — the redo log survives crashes at every block write.

  `Inv` gives each value of the program counter its own clause, which makes the disk
  recoverable to `settled` or to `target`.
-/
import Xv6.Log.Invariant

namespace Xv6.LogLayer

open Lib Machine Function List

/-! ## §1. The invariant. -/

structure Ops (m : Machine) : Prop where
  outstanding : m.log.outstanding = m.active.length
  txn : ∀ w ∈ m.txn, w.op ∈ m.active ∨ w.op ∈ m.ended
  past : ∀ w ∈ (m.commits ++ m.inflight.toList).flatten, w.op ∈ m.ended

structure Quiet (m : Machine) : Prop where
  active : m.active = []
  txn : m.txn = []

/-- Operations may run; the disk does not know about them. -/
structure Serving (m : Machine) : Prop where
  committing : m.log.committing = false
  inflight : m.inflight = none
  header : m.header = []
  fits : m.Fits m.log.lh
  cache : CacheInv m m.log.lh
  disk : m.DiskIs m.settled
  view : m.ViewIs (replay (m.txn.map Write.entry) m.settled)
  touched : ∀ w ∈ m.txn, w.blockno ∈ m.log.lh

structure Logging (m : Machine) (k : Nat) : Prop where
  quiet : Quiet m
  committing : m.log.committing = true
  header : m.header = []
  fits : m.Fits m.log.lh
  cache : CacheInv m m.log.lh
  disk : m.DiskIs m.settled
  view : m.ViewIs m.target
  slots : m.SlotsHold k m.target
  touched : ∀ b, m.Home b → b ∉ m.log.lh → m.settled b = m.target b

/-- `commit()` behind the commit point, `k` blocks installed. -/
structure Installing (m : Machine) (k : Nat) : Prop where
  quiet : Quiet m
  committing : m.log.committing = true
  header : m.header = m.log.lh
  fits : m.Fits m.log.lh
  cache : CacheInv m (m.log.lh.drop k)
  slots : m.SlotsHold m.log.lh.length m.target
  installed : ∀ b, m.Home b → b ∉ m.log.lh.drop k → m.disk b = m.target b
  view : m.ViewIs m.target

/-- `commit()` with everything installed. -/
structure Installed (m : Machine) : Prop where
  quiet : Quiet m
  committing : m.log.committing = true
  lh : m.log.lh = []
  cache : CacheInv m []
  disk : m.DiskIs m.target

/-- `recover_from_log()`, on its way to `T`. -/
structure Recovering (m : Machine) (T : Nat → Block) : Prop where
  quiet : Quiet m
  committing : m.log.committing = false
  cache : CacheInv m []
  outcome : T = m.settled ∨ T = m.target

/-- What the program counter says about the rest of the state. -/
def PhaseAt (m : Machine) : Pc → Prop
  | .recReadHead => ∃ T, Recovering m T ∧ m.Recoverable T
  | .recInstall k =>
    ∃ T, Recovering m T ∧ m.Recoverable T ∧ m.log.lh = m.header ∧
      ∀ i b, i < k → m.log.lh[i]? = some b → m.disk b = T b
  | .recWriteHead => ∃ T, Recovering m T ∧ m.Recoverable T ∧ m.log.lh = [] ∧ m.DiskIs T
  | .recovered => ∃ T, Recovering m T ∧ m.header = [] ∧ m.log.lh = [] ∧ m.DiskIs T
  | .idle => Serving m
  | .commit => Logging m 0
  | .writeLog k => Logging m k
  | .writeHead => Logging m m.log.lh.length
  | .install k => Installing m k
  | .eraseHead => Installed m ∧ m.Recoverable m.target
  | .commitDone => Installed m ∧ m.header = []

structure Inv (m : Machine) : Prop where
  size : 1 ≤ m.log.size
  ops : Ops m
  phase : PhaseAt m m.pc

/-! ## §2. Writes and the frames they respect. -/

section Writes

variable {m : Machine} {T : Nat → Block}

theorem settled_flatten (txns : List (List Write)) (t : List Write) (d : Nat → Block) :
    replayTxns (txns ++ [t]) d = replay (t.map Write.entry) (replayTxns txns d) := by
  unfold replayTxns
  rw [flatten_append, map_append, replay_append]
  simp

variable {b : Nat}

theorem logEntries_bwrite_home (hsize : 1 ≤ m.log.size) (hroom : m.header.length < m.log.size)
    (hb : m.Home b) (v : Block) : (m.bwrite b v).logEntries = m.logEntries := by
  refine logEntries_congr rfl ?_ (fun i hi => ?_)
  · exact update_of_ne (home_ne_start hsize hb).symm _ _
  · exact update_of_ne (home_ne_logBlock (by omega) hb).symm _ _

theorem header_bwrite_home (hsize : 1 ≤ m.log.size) (hb : m.Home b) (v : Block) :
    (m.bwrite b v).header = m.header := by
  show readHead (update m.disk b v m.log.start) = readHead (m.disk m.log.start)
  rw [update_of_ne (home_ne_start hsize hb).symm]

theorem header_bwrite_slot {i : Nat} (v : Block) :
    (m.bwrite (m.logBlock i) v).header = m.header := by
  show readHead (update m.disk (m.logBlock i) v m.log.start)
    = readHead (m.disk m.log.start)
  rw [update_of_ne logBlock_ne_start.symm]

theorem putHead_disk_home (hsize : 1 ≤ m.log.size) (hb : m.Home b) : m.putHead.disk b = m.disk b :=
  update_of_ne (home_ne_start hsize hb) _ _

theorem putHead_disk_slot (i : Nat) : m.putHead.disk (m.logBlock i) = m.disk (m.logBlock i) :=
  update_of_ne logBlock_ne_start _ _

theorem putHead_header : m.putHead.header = m.log.lh := by
  show readHead (update m.disk m.log.start
    (writeHead m.log.lh (m.bread m.log.start)) m.log.start) = m.log.lh
  rw [update_self, readHead_writeHead]

theorem bread_putHead_home (hsize : 1 ≤ m.log.size) (hb : m.Home b) :
    m.putHead.bread b = m.bread b := by
  unfold Machine.putHead
  rw [bread_bwrite, if_neg (home_ne_start hsize hb)]

theorem Machine.Recoverable.install (hsize : 1 ≤ m.log.size) (h : m.Recoverable T) {i b : Nat}
    (hi : m.header[i]? = some b) : (m.bwrite b (m.disk (m.logBlock i))).Recoverable T := by
  have hb : m.Home b := h.fits.home b (mem_of_getElem? hi)
  refine ⟨?_, ?_⟩
  · rw [header_bwrite_home hsize hb]
    exact ⟨h.fits.home, h.fits.nodup, h.fits.room⟩
  · rw [logEntries_bwrite_home hsize h.fits.room hb]
    exact h.pending.install (logEntries_mem hi)

theorem Machine.Recoverable.slot (h : m.Recoverable T) {i b : Nat} (hi : m.header[i]? = some b) :
    m.disk (m.logBlock i) = T b := (h.pending.entry _ (logEntries_mem hi)).symm

theorem Machine.Recoverable.diskIs (h : m.Recoverable T)
    (hall : ∀ (i b : Nat), m.header[i]? = some b → m.disk b = T b) : m.DiskIs T := by
  refine fun b hb => h.pending.eq_of_installed (fun e he => ?_) b hb
  obtain ⟨i, hi, hslot⟩ := mem_logEntries he
  rw [hall i e.1 hi, hslot, h.slot hi]

theorem recoverable_of_slots (hh : m.header = m.log.lh) (hfits : m.Fits m.log.lh)
    (hslots : m.SlotsHold m.log.lh.length T)
    (hrest : ∀ b, m.Home b → b ∉ m.log.lh → m.disk b = T b) : m.Recoverable T := by
  refine ⟨?_, ⟨fun e he => ?_, fun b hb hne => ?_⟩⟩
  · rw [hh]; exact hfits
  · obtain ⟨i, hi, hslot⟩ := mem_logEntries he
    rw [hh] at hi
    rw [hslot, hslots i e.1 (List.getElem?_eq_some_iff.mp hi).1 hi]
  · refine hrest b hb (fun hmem => ?_)
    obtain ⟨i, hi, hib⟩ := mem_iff_getElem.mp hmem
    have hget : m.header[i]? = some b := by
      rw [hh]; exact List.getElem?_eq_some_iff.mpr ⟨hi, hib⟩
    exact hne _ (logEntries_mem hget) rfl

end Writes

/-! ## §3. Every state is recoverable. -/

/-- **A crash is safe everywhere.** -/
theorem Inv.recoverable {m : Machine} (h : Inv m) :
    ∃ T, (T = m.settled ∨ T = m.target) ∧ m.Recoverable T := by
  have hp := h.phase
  cases hpc : m.pc with
  | recReadHead => rw [hpc] at hp; obtain ⟨T, hT, hr⟩ := hp; exact ⟨T, hT.outcome, hr⟩
  | recInstall k | recWriteHead =>
    rw [hpc] at hp; obtain ⟨T, hT, hr, _⟩ := hp; exact ⟨T, hT.outcome, hr⟩
  | recovered =>
    rw [hpc] at hp
    obtain ⟨T, hT, hh, _, hd⟩ := hp
    exact ⟨T, hT.outcome, recoverable_of_empty h.size hh hd⟩
  | idle | commit | writeLog k | writeHead =>
    rw [hpc] at hp; exact ⟨_, .inl rfl, recoverable_of_empty h.size hp.header hp.disk⟩
  | install k =>
    rw [hpc] at hp
    refine ⟨_, .inr rfl, recoverable_of_slots hp.header hp.fits hp.slots fun b hb hne => ?_⟩
    exact hp.installed b hb (fun hmem => hne (mem_of_mem_drop hmem))
  | eraseHead => rw [hpc] at hp; exact ⟨_, .inr rfl, hp.2⟩
  | commitDone =>
    rw [hpc] at hp; exact ⟨_, .inr rfl, recoverable_of_empty h.size hp.2 hp.1.disk⟩

/-! ## §4. Operations and the cache. -/

section Operations

variable {m : Machine}

theorem Inv.serving (h : Inv m) (hb : m.booted = true)
    (hopen : m.active ≠ [] ∨ m.log.committing = false) : m.pc = .idle ∧ Serving m := by
  have hp := h.phase
  -- a commit has no operation open and has `committing` set
  have hno : ∀ q : Quiet m, m.log.committing = true → False := by
    intro q hc
    rcases hopen with ho | ho
    · exact ho q.active
    · rw [hc] at ho; exact absurd ho (by simp)
  unfold Machine.booted at hb
  cases hpc : m.pc with
  | recReadHead | recInstall k | recWriteHead | recovered =>
    rw [hpc] at hb; exact absurd hb (by simp)
  | idle => rw [hpc] at hp; exact ⟨rfl, hp⟩
  | commit | writeLog k | writeHead | install k =>
    rw [hpc] at hp; exact (hno hp.quiet hp.committing).elim
  | eraseHead | commitDone => rw [hpc] at hp; exact (hno hp.1.quiet hp.1.committing).elim

theorem Inv.of_serving (hsize : 1 ≤ m.log.size) (hops : Ops m) (hpc : m.pc = .idle)
    (hs : Serving m) : Inv m := by
  refine ⟨hsize, hops, ?_⟩
  rw [hpc]
  exact hs

variable {log : Log}

theorem inv_beginOp (h : Inv m) (hb : m.booted = true) (hlog : beginOp m.log = some log) :
    Inv { m with log := log, active := m.nextOp :: m.active, nextOp := m.nextOp + 1 } := by
  obtain ⟨hc, _, rfl⟩ := beginOp_eq_some hlog
  obtain ⟨hpc, hs⟩ := h.serving hb (.inr hc)
  refine Inv.of_serving h.size ⟨?_, fun w hw => ?_, h.ops.past⟩ hpc
    ⟨hc, hs.inflight, hs.header, ⟨hs.fits.home, hs.fits.nodup, hs.fits.room⟩,
      ⟨hs.cache.clean, hs.cache.held⟩, hs.disk, hs.view, hs.touched⟩
  · have := h.ops.outstanding
    simp only [length_cons]
    omega
  · rcases h.ops.txn w hw with ha | he
    · exact .inl (mem_cons_of_mem _ ha)
    · exact .inr he

theorem view_logged {d T : Nat → Block} {P : Nat → Prop} {ws : List Write} {w : Write}
    (h : ∀ b, P b → d b = replay (ws.map Write.entry) T b) (b : Nat) (hb : P b) :
    update d w.blockno w.data b = replay ((ws ++ [w]).map Write.entry) T b := by
  rw [map_append, replay_append]
  show _ = update (replay (ws.map Write.entry) T) w.blockno w.data b
  by_cases hbw : b = w.blockno
  · subst hbw; simp
  · rw [update_of_ne hbw, update_of_ne hbw, h b hb]

theorem bread_logged {op b : Nat} {data : Block} {pin : Bool} (a : Nat) :
    (m.logged op b data log pin).bread a = update m.bread b data a := by
  unfold Machine.logged Machine.bread
  by_cases hab : a = b
  · subst hab; simp
  · simp [hab]

section

variable (h : Inv m)

include h

theorem inv_logWrite (hb : m.booted = true) {op b : Nat} {data : Block}
    {pin : Bool} (hop : op ∈ m.active) (hhome : m.Home b)
    (hlog : logWrite m.log b = .ok (log, pin)) : Inv (m.logged op b data log pin) := by
  obtain ⟨hpc, hs⟩ := h.serving hb (.inl (ne_nil_of_mem hop))
  obtain ⟨_, hroom, _, hcase⟩ := logWrite_eq_ok hlog
  have hlog' : log.start = m.log.start ∧ log.size = m.log.size ∧
      log.outstanding = m.log.outstanding ∧ log.committing = m.log.committing := by
    rcases hcase with ⟨_, _, rfl⟩ | ⟨_, _, rfl⟩ <;> exact ⟨rfl, rfl, rfl, rfl⟩
  obtain ⟨hstart, hsize, hout, hcom⟩ := hlog'
  have hhome' : (m.logged op b data log pin).Home = m.Home := by
    funext a
    show (a < log.start ∨ log.start + log.size ≤ a) = _
    rw [hstart, hsize]
    rfl
  have hmem : b ∈ log.lh ∧ ∀ a ∈ m.log.lh, a ∈ log.lh := by
    rcases hcase with ⟨hin, _, rfl⟩ | ⟨_, _, rfl⟩
    · exact ⟨hin, fun a ha => ha⟩
    · exact ⟨by simp, fun a ha => mem_append_left _ ha⟩
  refine Inv.of_serving (by show 1 ≤ log.size; rw [hsize]; exact h.size)
    ⟨by show log.outstanding = _; rw [hout]; exact h.ops.outstanding, fun w hw => ?_, h.ops.past⟩
    hpc ⟨by show log.committing = _; rw [hcom]; exact hs.committing, hs.inflight, ?_, ?_, ?_, ?_,
      ?_, fun w hw => ?_⟩
  · -- the operations of the open transaction
    rcases mem_append.mp hw with hw | hw
    · exact h.ops.txn w hw
    · rw [mem_singleton.mp hw]; exact .inl hop
  · show readHead (m.disk log.start) = []
    rw [hstart]; exact hs.header
  · -- the block numbers still fit
    rcases hcase with ⟨_, _, rfl⟩ | ⟨hnew, _, rfl⟩
    · exact ⟨hs.fits.home, hs.fits.nodup, hs.fits.room⟩
    · refine ⟨fun a ha => ?_, ?_, ?_⟩
      · rcases mem_append.mp ha with ha | ha
        · exact hs.fits.home a ha
        · rw [mem_singleton.mp ha]; exact hhome
      · exact nodup_append.mpr ⟨hs.fits.nodup, by simp, fun a ha c hc => by
          rw [mem_singleton.mp hc]; exact fun he => hnew (he ▸ ha)⟩
      · show (m.log.lh ++ [b]).length < m.log.size
        rw [length_append, length_singleton]
        exact hroom
  · -- the written block is dirty, cached and pinned
    refine ⟨fun a v hc ha => ?_, fun a ha => ?_⟩
    · have hab : a ≠ b := fun he => ha (he ▸ hmem.1)
      refine hs.cache.clean a v ?_ (fun hin => ha (hmem.2 a hin))
      have hc' : update m.cache b (some data) a = some v := hc
      rwa [update_of_ne hab] at hc'
    · show (update m.cache b (some data) a).isSome ∧
        0 < (if pin then update m.pins b (m.pins b + 1) else m.pins) a
      by_cases hab : a = b
      · subst hab
        refine ⟨by simp, ?_⟩
        rcases hcase with ⟨hin, rfl, _⟩ | ⟨_, rfl, _⟩
        · simpa using (hs.cache.held a hin).2
        · simp
      · have hold : a ∈ m.log.lh := by
          rcases hcase with ⟨_, _, rfl⟩ | ⟨_, _, rfl⟩
          · exact ha
          · rcases mem_append.mp ha with ha | ha
            · exact ha
            · exact absurd (mem_singleton.mp ha) hab
        obtain ⟨hc, hp⟩ := hs.cache.held a hold
        refine ⟨by rw [update_of_ne hab]; exact hc, ?_⟩
        split
        · rw [update_of_ne hab]; exact hp
        · exact hp
  · intro a ha
    rw [hhome'] at ha
    exact hs.disk a ha
  · intro a ha
    rw [hhome'] at ha
    rw [bread_logged]
    exact view_logged (w := { op := op, blockno := b, data := data }) hs.view a ha
  · rcases mem_append.mp hw with hw | hw
    · exact hmem.2 _ (hs.touched w hw)
    · rw [mem_singleton.mp hw]; exact hmem.1

theorem inv_endOp (hb : m.booted = true) {op : Nat} {doCommit : Bool}
    (hop : op ∈ m.active) (hlog : endOp m.log = .ok (log, doCommit)) :
    Inv (m.finish op log doCommit) := by
  obtain ⟨hpc, hs⟩ := h.serving hb (.inl (ne_nil_of_mem hop))
  obtain ⟨hc, hcase⟩ := endOp_eq_ok hlog
  have hlen : (m.active.erase op).length = m.active.length - 1 := length_erase_of_mem hop
  have hpos : 0 < m.active.length := length_pos_of_mem hop
  have hout := h.ops.outstanding
  -- every write of the open transaction belongs to an open or an ended operation
  have hops : ∀ w ∈ m.txn, w.op ∈ m.active.erase op ∨ w.op ∈ op :: m.ended := by
    intro w hw
    rcases h.ops.txn w hw with ha | he
    · by_cases hwo : w.op = op
      · exact .inr (by rw [hwo]; exact mem_cons_self)
      · exact .inl ((mem_erase_of_ne hwo).mpr ha)
    · exact .inr (mem_cons_of_mem _ he)
  rcases hcase with ⟨h1, rfl, rfl⟩ | ⟨hne, rfl, rfl⟩
  · -- the last operation: the transaction goes to `commit()`
    have hnil : m.active.erase op = [] := eq_nil_of_length_eq_zero (by omega)
    have hpast : (m.commits ++ m.inflight.toList).flatten = m.commits.flatten := by
      rw [hs.inflight]; simp
    have htarget : replayTxns (m.commits ++ [m.txn]) m.base
        = replay (m.txn.map Write.entry) m.settled := settled_flatten _ _ _
    refine ⟨h.size, ⟨?_, fun w hw => by simp [Machine.finish] at hw, fun w hw => ?_⟩, ?_⟩
    · show (0 : Int) = (m.active.erase op).length
      rw [hnil]; rfl
    · have hw' : w ∈ (m.commits ++ [m.txn]).flatten := hw
      rw [flatten_append] at hw'
      rcases mem_append.mp hw' with hw' | hw'
      · refine mem_cons_of_mem _ (h.ops.past w ?_)
        rw [hpast]; exact hw'
      · rcases hops w (by simpa using hw') with ha | he
        · rw [hnil] at ha; exact absurd ha (by simp)
        · exact he
    · show Logging _ 0
      refine ⟨⟨hnil, rfl⟩, rfl, hs.header, ⟨hs.fits.home, hs.fits.nodup, hs.fits.room⟩,
        ⟨hs.cache.clean, hs.cache.held⟩, hs.disk, fun b hb => ?_, fun i b hi => absurd hi (by omega),
        fun b hb hne => ?_⟩
      · show m.bread b = replayTxns (m.commits ++ [m.txn]) m.base b
        rw [htarget]; exact hs.view b hb
      · show m.settled b = replayTxns (m.commits ++ [m.txn]) m.base b
        rw [htarget, replay_of_notMem]
        intro e he
        obtain ⟨w, hw, rfl⟩ := mem_map.mp he
        exact fun heq => hne (heq ▸ hs.touched w hw)
  · refine Inv.of_serving h.size ⟨?_, hops, fun w hw => mem_cons_of_mem _ (h.ops.past w hw)⟩
      hpc ⟨hc, hs.inflight, hs.header, ⟨hs.fits.home, hs.fits.nodup, hs.fits.room⟩,
        ⟨hs.cache.clean, hs.cache.held⟩, hs.disk, hs.view, hs.touched⟩
    show m.log.outstanding - 1 = ((m.active.erase op).length : Int)
    rw [hlen]
    omega

/-- **Cache traffic is invisible.**  A new content of the cache keeps the
invariant if the views stay the same. -/
theorem Inv.congr_cache (cache : Nat → Option Block)
    (hview : ∀ dirty, CacheInv m dirty → CacheInv { m with cache := cache } dirty ∧
      ∀ b, ({ m with cache := cache } : Machine).bread b = m.bread b) :
    Inv { m with cache := cache } := by
  refine ⟨h.size, ⟨h.ops.outstanding, h.ops.txn, h.ops.past⟩, ?_⟩
  have hrec : ∀ T, Recovering m T → Recovering { m with cache := cache } T := fun T hT =>
    ⟨⟨hT.quiet.active, hT.quiet.txn⟩, hT.committing, (hview _ hT.cache).1, hT.outcome⟩
  have hrecov : ∀ T, m.Recoverable T → ({ m with cache := cache } : Machine).Recoverable T :=
    fun T hT => hT.congr rfl rfl rfl
  have hlogging : ∀ k, Logging m k → Logging { m with cache := cache } k := fun k hl =>
    ⟨⟨hl.quiet.active, hl.quiet.txn⟩, hl.committing, hl.header,
      ⟨hl.fits.home, hl.fits.nodup, hl.fits.room⟩, (hview _ hl.cache).1, hl.disk,
      fun b hb => ((hview _ hl.cache).2 b).trans (hl.view b hb), hl.slots, hl.touched⟩
  have hinst : Installed m → Installed { m with cache := cache } := fun hi =>
    ⟨⟨hi.quiet.active, hi.quiet.txn⟩, hi.committing, hi.lh, (hview _ hi.cache).1, hi.disk⟩
  have hphase : ∀ pc, PhaseAt m pc → PhaseAt { m with cache := cache } pc := by
    intro pc hp
    cases pc with
    | recReadHead => obtain ⟨T, hT, hr⟩ := hp; exact ⟨T, hrec T hT, hrecov T hr⟩
    | recInstall k | recWriteHead =>
      obtain ⟨T, hT, hr, hrest⟩ := hp; exact ⟨T, hrec T hT, hrecov T hr, hrest⟩
    | recovered => obtain ⟨T, hT, hrest⟩ := hp; exact ⟨T, hrec T hT, hrest⟩
    | idle =>
      exact ⟨hp.committing, hp.inflight, hp.header,
        ⟨hp.fits.home, hp.fits.nodup, hp.fits.room⟩, (hview _ hp.cache).1, hp.disk,
        fun b hb => ((hview _ hp.cache).2 b).trans (hp.view b hb), hp.touched⟩
    | commit | writeLog k | writeHead => exact hlogging _ hp
    | install k =>
      exact ⟨⟨hp.quiet.active, hp.quiet.txn⟩, hp.committing, hp.header,
        ⟨hp.fits.home, hp.fits.nodup, hp.fits.room⟩, (hview _ hp.cache).1, hp.slots,
        hp.installed, fun b hb => ((hview _ hp.cache).2 b).trans (hp.view b hb)⟩
    | eraseHead => exact ⟨hinst hp.1, hrecov _ hp.2⟩
    | commitDone => exact ⟨hinst hp.1, hp.2⟩
  exact hphase m.pc h.phase

theorem inv_bread (b : Nat) : Inv (m.fill b) :=
  h.congr_cache _ fun _ hc => ⟨hc.fill b, bread_fill m b⟩

theorem inv_evict (b : Nat) (hp : m.pins b = 0) : Inv { m with cache := update m.cache b none } :=
  h.congr_cache _ fun _ hc => hc.evict hp

theorem inv_crash : Inv m.crashed := by
  obtain ⟨T, hT, hr⟩ := h.recoverable
  refine ⟨h.size, ⟨rfl, fun w hw => by simp [Machine.crashed] at hw, h.ops.past⟩, ?_⟩
  exact ⟨T, ⟨⟨rfl, rfl⟩, rfl, ⟨fun b v hc => by simp [Machine.crashed] at hc,
    fun b hb => by simp at hb⟩, hT⟩, hr.congr rfl rfl rfl⟩

theorem inv_boot (hpc : m.pc = .recovered) :
    Inv { m with pc := .idle, base := m.disk, commits := [], inflight := none } := by
  have hp := h.phase
  rw [hpc] at hp
  obtain ⟨T, hT, hh, hlh, _⟩ := hp
  have hq := hT.quiet
  refine Inv.of_serving h.size ⟨h.ops.outstanding, h.ops.txn, fun w hw => by simp at hw⟩ rfl
    ⟨hT.committing, rfl, hh, ?_, ?_, fun b _ => rfl, fun b hb => ?_, fun w hw => ?_⟩
  · show Machine.Fits _ m.log.lh
    rw [hlh]
    exact ⟨by simp, by simp, h.size⟩
  · show CacheInv _ m.log.lh
    rw [hlh]
    exact ⟨hT.cache.clean, hT.cache.held⟩
  · show m.bread b = replay (m.txn.map Write.entry) (replayTxns [] m.disk) b
    rw [hq.txn, hT.cache.bread_eq (by simp)]
    rfl
  · have hw' : w ∈ m.txn := hw
    rw [hq.txn] at hw'
    exact absurd hw' (by simp)

end

end Operations

/-! ## §5. The thread in `recover_from_log()`. -/

section Recovery

variable {m : Machine}

theorem inv_recReadHead (h : Inv m) (hpc : m.pc = .recReadHead) : Inv { m.fill m.log.start with
      log := { m.log with lh := readHead (m.bread m.log.start) }, pc := .recInstall 0 } := by
  have hp := h.phase
  rw [hpc] at hp
  obtain ⟨T, hT, hr⟩ := hp
  refine ⟨h.size, ⟨h.ops.outstanding, h.ops.txn, h.ops.past⟩, ?_⟩
  refine ⟨T, ⟨⟨hT.quiet.active, hT.quiet.txn⟩, hT.committing, ?_, hT.outcome⟩,
    hr.congr rfl rfl rfl, ?_, fun i b hi => absurd hi (by omega)⟩
  · have hc := hT.cache.fill m.log.start
    exact ⟨hc.clean, hc.held⟩
  · show readHead (m.bread m.log.start) = readHead (m.disk m.log.start)
    rw [hT.cache.bread_eq (by simp)]

theorem inv_recInstall_entry (h : Inv m) {k b : Nat} (hpc : m.pc = .recInstall k)
    (hk : m.log.lh[k]? = some b) :
    Inv { m.installEntry k b with pc := .recInstall (k + 1) } := by
  have hp := h.phase
  rw [hpc] at hp
  obtain ⟨T, hT, hr, hlh, hinst⟩ := hp
  have hslot : m.bread (m.logBlock k) = m.disk (m.logBlock k) := hT.cache.bread_eq (by simp)
  have hk' : m.header[k]? = some b := by rw [← hlh]; exact hk
  have hb : m.Home b := hr.fits.home b (mem_of_getElem? hk')
  have hdisk : (m.installEntry k b).disk = update m.disk b (m.disk (m.logBlock k)) := by
    unfold Machine.installEntry
    rw [hslot]
    rfl
  refine ⟨h.size, ⟨h.ops.outstanding, h.ops.txn, h.ops.past⟩, ?_⟩
  refine ⟨T, ⟨⟨hT.quiet.active, hT.quiet.txn⟩, hT.committing, ?_, hT.outcome⟩, ?_, ?_, ?_⟩
  · have hc := (hT.cache.fill (m.logBlock k)).bwrite b (m.bread (m.logBlock k))
    exact ⟨hc.clean, hc.held⟩
  · exact (hr.install h.size hk').congr hdisk rfl rfl
  · show m.log.lh = readHead ((m.installEntry k b).disk m.log.start)
    rw [hlh, hdisk, update_of_ne (home_ne_start h.size hb).symm]
    rfl
  · intro i c hi hc
    show (m.installEntry k b).disk c = T c
    rw [hdisk]
    by_cases hcb : c = b
    · rw [hcb, update_self]
      exact hr.slot hk'
    · rw [update_of_ne hcb]
      refine hinst i c ?_ hc
      -- entry `k` itself is `b`
      by_contra hge
      obtain rfl : i = k := by omega
      exact hcb (Option.some.inj (hc.symm.trans hk))

theorem inv_recInstall_done (h : Inv m) {k : Nat} (hpc : m.pc = .recInstall k)
    (hk : m.log.lh[k]? = none) : Inv { m.clearHead with pc := .recWriteHead } := by
  have hp := h.phase
  rw [hpc] at hp
  obtain ⟨T, hT, hr, hlh, hinst⟩ := hp
  have hlen : m.log.lh.length ≤ k := List.getElem?_eq_none_iff.mp hk
  refine ⟨h.size, ⟨h.ops.outstanding, h.ops.txn, h.ops.past⟩, ?_⟩
  refine ⟨T, ⟨⟨hT.quiet.active, hT.quiet.txn⟩, hT.committing, ⟨hT.cache.clean, hT.cache.held⟩,
    hT.outcome⟩, hr.congr rfl rfl rfl, rfl, ?_⟩
  refine hr.diskIs fun i b hi => ?_
  rw [← hlh] at hi
  have := (List.getElem?_eq_some_iff.mp hi).1
  exact hinst i b (by omega) hi

theorem inv_recWriteHead (h : Inv m) (hpc : m.pc = .recWriteHead) :
    Inv { m.putHead with pc := .recovered } := by
  have hp := h.phase
  rw [hpc] at hp
  obtain ⟨T, hT, hr, hlh, hd⟩ := hp
  refine ⟨h.size, ⟨h.ops.outstanding, h.ops.txn, h.ops.past⟩, ?_⟩
  refine ⟨T, ⟨⟨hT.quiet.active, hT.quiet.txn⟩, hT.committing, ?_, hT.outcome⟩, ?_, hlh, ?_⟩
  · have hc := hT.cache.bwrite m.log.start (writeHead m.log.lh (m.bread m.log.start))
    exact ⟨hc.clean, hc.held⟩
  · exact putHead_header.trans hlh
  · intro b hb
    exact (putHead_disk_home h.size hb).trans (hd b hb)

end Recovery

/-! ## §6. The thread in `commit()`. -/

section Commit

variable {m : Machine}

theorem inv_commit_writeLog (h : Inv m) (hpc : m.pc = .commit) :
    Inv { m with pc := .writeLog 0 } := by
  have hp := h.phase
  rw [hpc] at hp
  exact ⟨h.size, ⟨h.ops.outstanding, h.ops.txn, h.ops.past⟩,
    ⟨⟨hp.quiet.active, hp.quiet.txn⟩, hp.committing, hp.header,
      ⟨hp.fits.home, hp.fits.nodup, hp.fits.room⟩, ⟨hp.cache.clean, hp.cache.held⟩, hp.disk,
      hp.view, hp.slots, hp.touched⟩⟩

theorem inv_commit_empty (h : Inv m) (hpc : m.pc = .commit) (hlen : ¬ 0 < m.log.lh.length) :
    Inv { m with pc := .commitDone } := by
  have hp := h.phase
  rw [hpc] at hp
  have hlh : m.log.lh = [] := eq_nil_of_length_eq_zero (by omega)
  have hcache := hp.cache
  rw [hlh] at hcache
  refine ⟨h.size, ⟨h.ops.outstanding, h.ops.txn, h.ops.past⟩,
    ⟨⟨hp.quiet.active, hp.quiet.txn⟩, hp.committing, hlh, ⟨hcache.clean, hcache.held⟩, ?_⟩,
    hp.header⟩
  intro b hb
  show m.disk b = m.target b
  rw [hp.disk b hb]
  exact hp.touched b hb (by rw [hlh]; simp)

theorem inv_writeLog_entry (h : Inv m) {k b : Nat} (hpc : m.pc = .writeLog k)
    (hk : m.log.lh[k]? = some b) : Inv (m.writeLogEntry k b) := by
  have hp := h.phase
  rw [hpc] at hp
  have hklen : k < m.log.lh.length := (List.getElem?_eq_some_iff.mp hk).1
  have hroom : k + 1 < m.log.size := by have := hp.fits.room; omega
  have hb : m.Home b := hp.fits.home b (mem_of_getElem? hk)
  refine ⟨h.size, ⟨h.ops.outstanding, h.ops.txn, h.ops.past⟩, ?_⟩
  refine ⟨⟨hp.quiet.active, hp.quiet.txn⟩, hp.committing, ?_,
    ⟨hp.fits.home, hp.fits.nodup, hp.fits.room⟩, ?_, ?_, ?_, ?_, hp.touched⟩
  · exact header_bwrite_slot (m := m) _ |>.trans hp.header
  · have hc := (hp.cache.fill b).bwrite (m.logBlock k) (m.bread b)
    exact ⟨hc.clean, hc.held⟩
  · intro c hc
    show update m.disk (m.logBlock k) (m.bread b) c = m.settled c
    rw [update_of_ne (home_ne_logBlock hroom hc)]
    exact hp.disk c hc
  · intro c hc
    show ((m.fill b).bwrite (m.logBlock k) (m.bread b)).bread c = m.target c
    rw [bread_bwrite, if_neg (home_ne_logBlock hroom hc), bread_fill]
    exact hp.view c hc
  · intro i c hi hc
    show update m.disk (m.logBlock k) (m.bread b) (m.logBlock i) = m.target c
    by_cases hik : i = k
    · subst hik
      obtain rfl : c = b := Option.some.inj (hc.symm.trans hk)
      rw [update_self]
      exact hp.view c hb
    · rw [update_of_ne (fun he => hik (logBlock_inj he))]
      exact hp.slots i c (by omega) hc

theorem inv_writeLog_done (h : Inv m) {k : Nat} (hpc : m.pc = .writeLog k)
    (hk : m.log.lh[k]? = none) : Inv { m with pc := .writeHead } := by
  have hp := h.phase
  rw [hpc] at hp
  have hlen : m.log.lh.length ≤ k := List.getElem?_eq_none_iff.mp hk
  exact ⟨h.size, ⟨h.ops.outstanding, h.ops.txn, h.ops.past⟩,
    ⟨⟨hp.quiet.active, hp.quiet.txn⟩, hp.committing, hp.header,
      ⟨hp.fits.home, hp.fits.nodup, hp.fits.room⟩, ⟨hp.cache.clean, hp.cache.held⟩, hp.disk,
      hp.view, fun i b hi => hp.slots i b (Nat.lt_of_lt_of_le hi hlen), hp.touched⟩⟩

/-- **The commit point**: the header reaches the disk. -/
theorem inv_writeHead (h : Inv m) (hpc : m.pc = .writeHead) :
    Inv { m.putHead with pc := .install 0 } := by
  have hp := h.phase
  rw [hpc] at hp
  refine ⟨h.size, ⟨h.ops.outstanding, h.ops.txn, h.ops.past⟩, ?_⟩
  refine ⟨⟨hp.quiet.active, hp.quiet.txn⟩, hp.committing, putHead_header (m := m),
    ⟨hp.fits.home, hp.fits.nodup, hp.fits.room⟩, ?_, ?_, ?_, ?_⟩
  · have hc := hp.cache.bwrite m.log.start (writeHead m.log.lh (m.bread m.log.start))
    exact ⟨hc.clean, hc.held⟩
  · intro i b hi hb
    exact (putHead_disk_slot i).trans (hp.slots i b hi hb)
  · intro b hb hne
    show m.putHead.disk b = m.target b
    rw [putHead_disk_home h.size hb, hp.disk b hb]
    exact hp.touched b hb hne
  · intro b hb
    exact (bread_putHead_home h.size hb).trans (hp.view b hb)

theorem inv_install_entry (h : Inv m) {k b : Nat} (hpc : m.pc = .install k)
    (hk : m.log.lh[k]? = some b) :
    Inv { (m.installEntry k b).bunpin b with pc := .install (k + 1) } := by
  have hp := h.phase
  rw [hpc] at hp
  obtain ⟨hklen, hkb⟩ := List.getElem?_eq_some_iff.mp hk
  have hroom : ∀ i, i < m.log.lh.length → i + 1 < m.log.size := by
    have := hp.fits.room; omega
  have hb : m.Home b := hp.fits.home b (mem_of_getElem? hk)
  have hdrop : m.log.lh.drop k = b :: m.log.lh.drop (k + 1) := by
    rw [drop_eq_getElem_cons hklen, hkb]
  have hfresh : b ∉ m.log.lh.drop (k + 1) := by
    have hnd := hp.fits.nodup.sublist (drop_sublist k m.log.lh)
    rw [hdrop] at hnd
    exact (nodup_cons.mp hnd).1
  have hslot : m.bread (m.logBlock k) = m.target b := by
    rw [hp.cache.bread_eq, hp.slots k b hklen hk]
    intro hmem
    exact home_ne_logBlock (hroom k hklen) (hp.fits.home _ (mem_of_mem_drop hmem)) rfl
  have hdisk : (m.installEntry k b).disk = update m.disk b (m.target b) := by
    unfold Machine.installEntry
    rw [hslot]
    rfl
  refine ⟨h.size, ⟨h.ops.outstanding, h.ops.txn, h.ops.past⟩, ?_⟩
  refine ⟨⟨hp.quiet.active, hp.quiet.txn⟩, hp.committing, ?_,
    ⟨hp.fits.home, hp.fits.nodup, hp.fits.room⟩, ?_, ?_, ?_, ?_⟩
  · exact (header_bwrite_home (m := m) h.size hb _).trans hp.header
  · have hc := (hp.cache.fill (m.logBlock k)).bwrite b (m.bread (m.logBlock k))
    rw [hdrop] at hc
    have hun := hc.bunpin hfresh (fun v hv => by
      have hv' : update (m.fill (m.logBlock k)).cache b
          (some (m.bread (m.logBlock k))) b = some v := hv
      rw [update_self] at hv'
      show v = update m.disk b (m.bread (m.logBlock k)) b
      rw [update_self]
      exact (Option.some.inj hv').symm)
    exact ⟨hun.clean, hun.held⟩
  · intro i c hi hc
    show (m.installEntry k b).disk (m.logBlock i) = m.target c
    rw [hdisk, update_of_ne (home_ne_logBlock (hroom i hi) hb).symm]
    exact hp.slots i c hi hc
  · intro c hc hne
    show (m.installEntry k b).disk c = m.target c
    rw [hdisk]
    by_cases hcb : c = b
    · rw [hcb, update_self]
    · rw [update_of_ne hcb]
      refine hp.installed c hc ?_
      rw [hdrop]
      exact fun hmem => (mem_cons.mp hmem).elim hcb hne
  · intro c hc
    show ((m.fill (m.logBlock k)).bwrite b (m.bread (m.logBlock k))).bread c = m.target c
    rw [bread_bwrite, bread_fill]
    by_cases hcb : c = b
    · rw [if_pos hcb, hslot, hcb]
    · rw [if_neg hcb]
      exact hp.view c hc

theorem inv_install_done (h : Inv m) {k : Nat} (hpc : m.pc = .install k)
    (hk : m.log.lh[k]? = none) : Inv { m.clearHead with pc := .eraseHead } := by
  have hp := h.phase
  rw [hpc] at hp
  have hdrop : m.log.lh.drop k = [] := drop_eq_nil_of_le (List.getElem?_eq_none_iff.mp hk)
  have hcache := hp.cache
  have hinst := hp.installed
  rw [hdrop] at hcache hinst
  have hdisk : m.DiskIs m.target := fun b hb => hinst b hb (by simp)
  refine ⟨h.size, ⟨h.ops.outstanding, h.ops.txn, h.ops.past⟩,
    ⟨⟨hp.quiet.active, hp.quiet.txn⟩, hp.committing, rfl, ⟨hcache.clean, hcache.held⟩, hdisk⟩, ?_⟩
  have hrec : m.Recoverable m.target :=
    recoverable_of_slots hp.header hp.fits hp.slots fun b hb _ => hdisk b hb
  exact hrec.congr rfl rfl rfl

theorem inv_eraseHead (h : Inv m) (hpc : m.pc = .eraseHead) :
    Inv { m.putHead with pc := .commitDone } := by
  have hp := h.phase
  rw [hpc] at hp
  obtain ⟨hi, _⟩ := hp
  refine ⟨h.size, ⟨h.ops.outstanding, h.ops.txn, h.ops.past⟩,
    ⟨⟨hi.quiet.active, hi.quiet.txn⟩, hi.committing, hi.lh, ?_, fun b hb => ?_⟩, ?_⟩
  · have hc := hi.cache.bwrite m.log.start (writeHead m.log.lh (m.bread m.log.start))
    exact ⟨hc.clean, hc.held⟩
  · exact (putHead_disk_home h.size hb).trans (hi.disk b hb)
  · exact putHead_header.trans hi.lh

theorem inv_commitDone (h : Inv m) (hpc : m.pc = .commitDone) : Inv { m with
      log := endCommit m.log, pc := .idle
      commits := m.commits ++ m.inflight.toList, inflight := none } := by
  have hp := h.phase
  rw [hpc] at hp
  obtain ⟨hi, hh⟩ := hp
  refine Inv.of_serving h.size ⟨h.ops.outstanding, h.ops.txn, fun w hw => ?_⟩ rfl
    ⟨rfl, rfl, hh, ?_, ?_, hi.disk, fun b hb => ?_, fun w hw => ?_⟩
  · exact h.ops.past w (by simpa using hw)
  · show Machine.Fits _ m.log.lh
    rw [hi.lh]
    exact ⟨by simp, by simp, h.size⟩
  · show CacheInv _ m.log.lh
    rw [hi.lh]
    exact ⟨hi.cache.clean, hi.cache.held⟩
  · show m.bread b = replay (m.txn.map Write.entry) m.target b
    rw [hi.quiet.txn, hi.cache.bread_eq (by simp)]
    exact hi.disk b hb
  · have hw' : w ∈ m.txn := hw
    rw [hi.quiet.txn] at hw'
    exact absurd hw' (by simp)

end Commit

/-! ## §7. Every run. -/

theorem inv_advance {m m' : Machine} (h : Inv m) (hs : m.advance = some m') : Inv m' := by
  unfold Machine.advance at hs
  cases hpc : m.pc with
  | recReadHead => rw [hpc] at hs; rw [← Option.some.inj hs]; exact inv_recReadHead h hpc
  | recInstall k =>
    simp only [hpc] at hs
    cases hk : m.log.lh[k]? with
    | some b =>
      rw [hk] at hs; rw [← Option.some.inj hs]; exact inv_recInstall_entry h hpc hk
    | none => rw [hk] at hs; rw [← Option.some.inj hs]; exact inv_recInstall_done h hpc hk
  | recWriteHead => rw [hpc] at hs; rw [← Option.some.inj hs]; exact inv_recWriteHead h hpc
  | recovered | idle => rw [hpc] at hs; exact absurd hs (by simp)
  | commit =>
    simp only [hpc] at hs
    split at hs
    · rw [← Option.some.inj hs]; exact inv_commit_writeLog h hpc
    · next hlen => rw [← Option.some.inj hs]; exact inv_commit_empty h hpc hlen
  | writeLog k =>
    simp only [hpc] at hs
    cases hk : m.log.lh[k]? with
    | some b => rw [hk] at hs; rw [← Option.some.inj hs]; exact inv_writeLog_entry h hpc hk
    | none => rw [hk] at hs; rw [← Option.some.inj hs]; exact inv_writeLog_done h hpc hk
  | writeHead => rw [hpc] at hs; rw [← Option.some.inj hs]; exact inv_writeHead h hpc
  | install k =>
    simp only [hpc] at hs
    cases hk : m.log.lh[k]? with
    | some b => rw [hk] at hs; rw [← Option.some.inj hs]; exact inv_install_entry h hpc hk
    | none => rw [hk] at hs; rw [← Option.some.inj hs]; exact inv_install_done h hpc hk
  | eraseHead => rw [hpc] at hs; rw [← Option.some.inj hs]; exact inv_eraseHead h hpc
  | commitDone => rw [hpc] at hs; rw [← Option.some.inj hs]; exact inv_commitDone h hpc

theorem inv_step {m m' : Machine} (h : Inv m) (hs : Step m m') : Inv m' := by
  cases hs with
  | beginOp hb hlog => exact inv_beginOp h hb hlog
  | logWrite hb hop hhome hlog => exact inv_logWrite h hb hop hhome hlog
  | endOp hb hop hlog => exact inv_endOp h hb hop hlog
  | advance hadv => exact inv_advance h hadv
  | bread b => exact inv_bread h b
  | evict b hp => exact inv_evict h b hp
  | crash => exact inv_crash h
  | boot hpc => exact inv_boot h hpc

theorem inv_init {logstart nlog : Nat} {m : Machine} (h : Init logstart nlog m) : Inv m := by
  obtain ⟨d, hd, hsize, rfl⟩ := h
  refine ⟨hsize, ⟨rfl, fun w hw => by simp at hw, fun w hw => by simp at hw⟩, ?_⟩
  refine ⟨d, ⟨⟨rfl, rfl⟩, rfl, ⟨fun b v hc => by simp at hc, fun b hb => by simp at hb⟩,
    Or.inl rfl⟩, recoverable_of_empty hsize ?_ (fun b _ => rfl)⟩
  show readHead (d logstart) = []
  exact eq_nil_of_length_eq_zero (by rw [length_readHead, hd])

theorem reachable_inv {logstart nlog : Nat} {m : Machine}
    (h : Reachable (Init logstart nlog) Step m) : Inv m :=
  h.invariant Inv (fun _ hm => inv_init hm) (fun _ _ hi hs => inv_step hi hs)

/-- **Crash atomicity of the redo log.** Whenever `recover_from_log` has completed, after any number
of crashes, the home blocks are those after all commits that had returned, or those after these and
the whole of the commit in progress, all of operations that had reached their `end_op`. -/
theorem crash_atomicity (logstart nlog : Nat) (m : Machine)
    (h : Reachable (Init logstart nlog) Step m) (hrec : m.pc = .recovered) :
    ((∀ b, m.Home b → m.disk b = replayTxns m.commits m.base b) ∨
        ∃ t, m.inflight = some t ∧
          ∀ b, m.Home b → m.disk b = replayTxns (m.commits ++ [t]) m.base b) ∧
      ∀ w ∈ (m.commits ++ m.inflight.toList).flatten, w.op ∈ m.ended := by
  have hinv := reachable_inv h
  have hp := hinv.phase
  rw [hrec] at hp
  obtain ⟨T, hT, _, _, hd⟩ := hp
  refine ⟨?_, hinv.ops.past⟩
  rcases hT.outcome with rfl | rfl
  · exact .inl hd
  · cases hin : m.inflight with
    | none =>
      refine .inl fun b hb => (hd b hb).trans ?_
      unfold Machine.target
      rw [hin]
      simp
    | some t =>
      refine .inr ⟨t, rfl, fun b hb => (hd b hb).trans ?_⟩
      unfold Machine.target
      rw [hin]
      rfl

/-- Power-on with a disk of zeroes and the log of mkfs. -/
def zeroMachine : Machine :=
  { disk := fun _ _ => 0, cache := fun _ => none, pins := fun _ => 0, log := initlog 2 LOGSIZE
    pc := .recReadHead, active := [], nextOp := 0, ended := [], txn := [], inflight := none
    commits := [], base := fun _ _ => 0 }

theorem exists_run_recovered : ∃ m : Machine, Reachable (Init 2 LOGSIZE) Step m ∧
    m.pc = .recovered ∧ m.disk 50 0 = 7 := by
  have h0 : Reachable (Init 2 LOGSIZE) Step zeroMachine :=
    .start ⟨fun _ _ => 0, rfl, by decide, rfl⟩
  have h1 := ((h0.next (.advance rfl)).next (.advance rfl)).next (.advance rfl)
  have h2 := (h1.next (.boot rfl)).next (.beginOp rfl rfl)
  have h3 := h2.next (@Step.logWrite _ 0 50 (fun _ => 7) _ _ rfl (by decide) (by decide) rfl)
  have h4 := h3.next (@Step.endOp _ 0 _ _ rfl (by decide) rfl)
  have h5 := (((h4.next (.advance rfl)).next (.advance rfl)).next (.advance rfl)).next
    (.advance rfl)
  have h6 := ((h5.next .crash).next (.advance rfl)).next (.advance rfl)
  exact ⟨_, (h6.next (.advance rfl)).next (.advance rfl), rfl, rfl⟩

/-- After that run the logged block is home. -/
theorem crash_atomicity_of_run : ∃ m : Machine, m.disk 50 0 = 7 ∧
    (((∀ b, m.Home b → m.disk b = replayTxns m.commits m.base b) ∨
        ∃ t, m.inflight = some t ∧
          ∀ b, m.Home b → m.disk b = replayTxns (m.commits ++ [t]) m.base b) ∧
      ∀ w ∈ (m.commits ++ m.inflight.toList).flatten, w.op ∈ m.ended) := by
  obtain ⟨m, hrun, hpc, hdisk⟩ := exists_run_recovered
  exact ⟨m, hdisk, crash_atomicity 2 LOGSIZE m hrun hpc⟩

end Xv6.LogLayer
