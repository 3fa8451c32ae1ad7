/-
  Xv6.Locks.Order — the order in which spin locks are taken.

  All the paths but one keep to it.  cpu_usage takes tickslock with `p->lock` held, the other
  way round than clockintr does.
-/
import Xv6.Locks.Paths

namespace Xv6.Locks

open Lib.Locks Lib.Locks.Stmt List

/-! ## §1. Ranks. -/

def Lock.rank : Lock → Nat
  | .waitLock => 0
  | .procLock => 1
  | .tickslock => 2
  | .ftable => 3
  | .pipe _ => 4
  | .log => 5
  | .itable => 6
  | .bcache => 7
  | .inode _ => 8
  | .buf _ => 8
  | .vdiskLock => 9
  | .proc p => 10 + p.val
  | .tidLock => 10 + NPROC
  | .kmem => 11 + NPROC

/-- The locks held come before those of the processes. -/
def Low (h : List Lock) : Prop := ∀ l ∈ h, l.rank < 10

/-- The path gives back what it takes, and takes it in order. -/
abbrev Keeps (me : Option Slot) (s : Path) (h : List Lock) : Prop :=
  s.Balanced Lock.rank Lock.proc me h

section Paths

variable {me : Option Slot} {h : List Lock} {l : Lock}

theorem below_nil : ∀ l' ∈ ([] : List Lock), l'.rank < l.rank := nofun

theorem low_nil : Low [] := nofun

theorem Low.cons (hl : l.rank < 10) (hh : Low h) : Low (l :: h) := forall_mem_cons.mpr ⟨hl, hh⟩

theorem Low.below (hh : Low h) (p : Slot) : ∀ l' ∈ h, l'.rank < (Lock.proc p).rank := by
  intro l' hl'
  have := hh l' hl'
  show l'.rank < 10 + p.val
  omega

theorem low_singleton (hl : l.rank < 10) : Low [l] := low_nil.cons hl

/-! ## §2. Processes. -/

theorem brief_keeps (hl : ∀ l' ∈ h, l'.rank < l.rank) : Keeps me (brief l) h :=
  Balanced.locked hl .skip

theorem forSlots_keeps {f : Slot → Path} (hf : ∀ p, Keeps me (f p) h) :
    Keeps me (forSlots f) h := by
  refine Balanced.block fun s hs => ?_
  obtain ⟨p, _, rfl⟩ := mem_map.mp hs
  exact hf p

theorem killed_keeps (hh : Low h) (p : Slot) : Keeps me (killed p) h := brief_keeps (hh.below p)

theorem wakeup_keeps (hh : Low h) (who : Option Slot) : Keeps me (wakeup who) h := by
  refine forSlots_keeps fun p => ?_
  split
  · exact .skip
  · exact brief_keeps (hh.below p)

theorem dropDeadProcesses_keeps (hh : Low h) : Keeps me dropDeadProcesses h :=
  forSlots_keeps fun p => brief_keeps (hh.below p)

theorem erase_below {p : Slot} (hl : l.rank < 10) :
    (Lock.proc p :: l :: h).erase l = Lock.proc p :: h := by
  have hne : Lock.proc p ≠ l := by
    rintro rfl
    simp only [Lock.rank] at hl
    omega
  rw [erase_cons_tail (by simpa using hne), erase_cons_head]

/-- sleep comes back with the lock it was called with.  Called with more, it
panics in sched. -/
theorem sleep_keeps (hl : l.rank < 10) (hh : Low h) (p : Slot) :
    Keeps (some p) (sleep p l) (l :: h) := by
  refine ok_acquire_cons ((hh.cons hl).below p) (ok_release_cons ?_ ?_)
  · exact mem_cons_of_mem _ mem_cons_self
  · rw [erase_below hl]
    intro q hq hown
    obtain ⟨_, rfl⟩ := List.cons.inj hown
    refine ok_release_cons mem_cons_self ?_
    rw [erase_cons_head]
    exact ok_acquire_cons below_nil rfl

theorem yield_keeps (p : Slot) : Keeps (some p) (yield p) [] := by
  refine ok_acquire_cons below_nil ?_
  intro q hq hown
  refine ok_release_cons mem_cons_self ?_
  rw [erase_cons_head]
  exact rfl

/-! ## §3. The clock and the thread calls. -/

theorem timer_keeps (c : Nat) (me : Option Slot) : Keeps me (timer c me) [] := by
  have hticks : Low [Lock.tickslock] := low_singleton (by decide)
  have hclock : Keeps me (clockintr c me) [] := by
    unfold clockintr
    split
    · exact .locked below_nil ((wakeup_keeps hticks me).seq ((dropDeadProcesses_keeps hticks).seq .skip))
    · exact .skip
  refine hclock.seq (.seq ?_ .skip)
  cases me with
  | none => exact .skip
  | some p => exact yield_keeps p

theorem sysSleep_keeps (p : Slot) : Keeps (some p) (sysSleep p) [] := by
  have hticks : Low [Lock.tickslock] := low_singleton (by decide)
  have hbody : Keeps (some p) (block [killed p, sleep p .tickslock]) [.tickslock] :=
    (killed_keeps hticks p).seq ((sleep_keeps (by decide) low_nil p).seq .skip)
  exact .locked below_nil (hbody.loop.seq ((killed_keeps hticks p).maybe.seq .skip))

theorem killFrom_keeps (l : List Slot) : Keeps me (killFrom l) [] := by
  induction l with
  | nil => exact .skip
  | cons p l ih => exact (brief_keeps below_nil).seq ((Balanced.skip.choice ih).seq .skip)

/-- tid_lock and kmem.lock come after the lock of any process. -/
theorem createThread_keeps (p : Slot) : Keeps me (createThread p) [] := by
  have htid : Keeps me alloctid [.proc p] := brief_keeps (by simp [Lock.rank])
  have hmem : Keeps me kalloc [.proc p] := brief_keeps (by simp [Lock.rank]; omega)
  exact .locked below_nil (htid.maybe.seq ((htid.seq (hmem.seq .skip)).maybe.seq .skip))

end Paths

/-! ## §4. Files. -/

section Files

variable (p : Slot) (i : Nat)

theorem acquiresleep_keeps (lk : Lock) {h : List Lock} (hlk : lk.rank < 10) (hh : Low h)
    (hl : ∀ l' ∈ h, l'.rank < lk.rank) : Keeps (some p) (acquiresleep p lk) h :=
  .locked hl (sleep_keeps hlk hh p).loop

theorem releasesleep_keeps (lk : Lock) (hlk : lk.rank < 10) :
    Keeps (some p) (releasesleep p lk) [] :=
  .locked below_nil (wakeup_keeps (low_singleton hlk) _)

theorem virtioDiskRw_keeps : Keeps (some p) (virtioDiskRw p) [] := by
  have hlow : Low [Lock.vdiskLock] := low_singleton (by decide)
  have hwake : Keeps (some p) (wakeup (some p)) [.vdiskLock] := wakeup_keeps hlow _
  have hsleep : Keeps (some p) (sleep p .vdiskLock) [.vdiskLock] :=
    sleep_keeps (by decide) low_nil p
  have hwait : Keeps (some p) (block [loop (wakeup (some p)), sleep p .vdiskLock]) [.vdiskLock] :=
    hwake.loop.seq (hsleep.seq .skip)
  exact .locked below_nil (hwait.loop.seq (hsleep.loop.seq (hwake.loop.seq .skip)))

theorem bread_keeps : Keeps (some p) (bread p i) [] := by
  have hget : Keeps (some p) (bget p i) [] :=
    (brief_keeps below_nil).seq
      ((acquiresleep_keeps p (.buf i) (by simp [Lock.rank]) low_nil below_nil).seq .skip)
  exact hget.seq ((virtioDiskRw_keeps p).maybe.seq .skip)

theorem bwrite_keeps : Keeps (some p) (bwrite p i) [] :=
  (brief_keeps below_nil).seq ((virtioDiskRw_keeps p).seq .skip)

theorem brelse_keeps : Keeps (some p) (brelse p i) [] :=
  (brief_keeps below_nil).seq ((releasesleep_keeps p (.buf i) (by simp [Lock.rank])).seq
    ((brief_keeps below_nil).seq .skip))

theorem buffer_keeps {s : Path} (hs : Keeps (some p) s []) :
    Keeps (some p) (block [bread p i, s, brelse p i]) [] :=
  (bread_keeps p i).seq (hs.seq ((brelse_keeps p i).seq .skip))

theorem commit_keeps : Keeps (some p) (commit p) [] := by
  have hhead : Keeps (some p) (writeHead p) [] := .pick fun i => buffer_keeps p i (bwrite_keeps p i)
  have hwrite : Keeps (some p) (writeLog p) [] := by
    refine .loop (.pick fun i => .pick fun j => .block ?_)
    simp only [forall_mem_cons]
    exact ⟨bread_keeps p i, bread_keeps p j, bwrite_keeps p i, brelse_keeps p j, brelse_keeps p i,
      nofun⟩
  have hinstall : Keeps (some p) (installTrans p) [] := by
    refine .loop (.pick fun i => .pick fun j => .block ?_)
    simp only [forall_mem_cons]
    exact ⟨bread_keeps p i, bread_keeps p j, bwrite_keeps p j, brief_keeps below_nil,
      brelse_keeps p i, brelse_keeps p j, nofun⟩
  exact (hwrite.seq (hhead.seq (hinstall.seq (hhead.seq .skip)))).maybe

/-- bcache.lock comes after log.lock. -/
theorem logWrite_keeps : Keeps (some p) logWrite [] :=
  .locked below_nil (brief_keeps (by simp [Lock.rank])).maybe

theorem beginOp_keeps : Keeps (some p) (beginOp p) [] :=
  .locked below_nil (sleep_keeps (by decide) low_nil p).loop

theorem endOp_keeps : Keeps (some p) (endOp p) [] := by
  have hwake : Keeps (some p) (locked .log (wakeup (some p))) [] :=
    .locked below_nil (wakeup_keeps (low_singleton (by decide)) _)
  exact hwake.choice ((brief_keeps below_nil).seq ((commit_keeps p).seq (hwake.seq .skip)))

theorem bfree_keeps : Keeps (some p) (bfree p) [] :=
  .pick fun i => buffer_keeps p i (logWrite_keeps p)

theorem iupdate_keeps : Keeps (some p) (iupdate p) [] :=
  .pick fun i => buffer_keeps p i (logWrite_keeps p)

theorem itrunc_keeps : Keeps (some p) (itrunc p) [] := by
  have hindirect : Keeps (some p) (pick fun i => block [bread p i, loop (bfree p), brelse p i]) [] :=
    .pick fun i => buffer_keeps p i (bfree_keeps p).loop
  exact (bfree_keeps p).loop.seq
    ((hindirect.seq ((bfree_keeps p).seq .skip)).maybe.seq ((iupdate_keeps p).seq .skip))

/-- If the inode were locked, the process would sleep with itable.lock, and panic. -/
theorem iput_keeps : Keeps (some p) (iput p i) [] := by
  refine .locked below_nil (Balanced.maybe ?_)
  refine Balanced.cons (acquiresleep_keeps p _ (by simp [Lock.rank]) (low_singleton (by decide))
    (by simp [Lock.rank])) ?_
  refine ok_release_cons mem_cons_self ?_
  rw [erase_cons_head]
  refine (itrunc_keeps p).cons ((iupdate_keeps p).cons ?_)
  refine (releasesleep_keeps p _ (by simp [Lock.rank])).cons ?_
  exact ok_acquire_cons below_nil rfl

theorem fileclose_keeps : Keeps (some p) (fileclose p) [] := by
  have hpipe : Keeps (some p) (pick (pipeclose p)) [] := by
    refine .pick fun i => ?_
    have hwake : Keeps (some p) (wakeup (some p)) [.pipe i] :=
      wakeup_keeps (low_singleton (by simp [Lock.rank])) _
    exact (Balanced.locked below_nil hwake).seq ((brief_keeps below_nil).maybe.seq .skip)
  have hinode : Keeps (some p) (block [beginOp p, pick (iput p), endOp p]) [] :=
    (beginOp_keeps p).seq ((Balanced.pick (iput_keeps p)).seq ((endOp_keeps p).seq .skip))
  exact (brief_keeps below_nil).seq ((Balanced.skip.choice (hpipe.choice hinode)).seq .skip)

/-! ## §5. exit, wait and thread_cleanup. -/

theorem exit_keeps : Keeps (some p) (exit p) [] := by
  have hwait : Low [Lock.waitLock] := low_singleton (by decide)
  refine (fileclose_keeps p).loop.cons ((beginOp_keeps p).cons ?_)
  refine (Balanced.pick (iput_keeps p)).cons ((endOp_keeps p).cons ?_)
  refine ok_acquire_cons below_nil ?_
  refine (forSlots_keeps fun _ => (wakeup_keeps hwait _).maybe).cons ?_
  refine (wakeup_keeps hwait _).cons (ok_acquire_cons (hwait.below p) ?_)
  refine ok_release_cons (mem_cons_of_mem _ mem_cons_self) ?_
  rw [erase_below (by decide)]
  -- the process is not resumed
  intro q _ _
  trivial

theorem waitLast_ok (l : List Slot) :
    (waitLast p l).ok Lock.rank Lock.proc (some p) (· = []) [.waitLock] := by
  have hwait : Low [Lock.waitLock] := low_singleton (by decide)
  induction l with
  | nil =>
    refine (killed_keeps hwait p).maybe.cons (ok_release_cons mem_cons_self ?_)
    rw [erase_cons_head]
    exact rfl
  | cons pp l ih =>
    constructor
    · exact (brief_keeps (hwait.below pp)).maybe.cons ih
    · have hfree : Keeps (some p) freeproc [.proc pp, .waitLock] := by
        refine (brief_keeps ?_).loop
        simp only [forall_mem_cons, Lock.rank]
        exact ⟨by omega, by omega, nofun⟩
      refine ok_acquire_cons (hwait.below pp) (hfree.maybe.cons ?_)
      refine ok_release_cons mem_cons_self ?_
      rw [erase_cons_head]
      refine ok_release_cons mem_cons_self ?_
      rw [erase_cons_head]
      exact rfl

theorem wait_keeps : Keeps (some p) (wait p) [] := by
  have hwait : Low [Lock.waitLock] := low_singleton (by decide)
  have hpass : Keeps (some p) waitPass [.waitLock] :=
    forSlots_keeps fun pp => (brief_keeps (hwait.below pp)).maybe
  have hbody : Keeps (some p) (block [waitPass, killed p, sleep p .waitLock]) [.waitLock] :=
    hpass.seq ((killed_keeps hwait p).seq ((sleep_keeps (by decide) low_nil p).seq .skip))
  exact ok_acquire_cons below_nil (hbody.loop.cons (ok_singleton (waitLast_ok p _)))

theorem threadCleanup_keeps : Keeps (some p) (threadCleanup p) [] := by
  have hfree : Keeps (some p) kfree [.proc p] := by
    refine brief_keeps ?_
    simp only [forall_mem_cons, Lock.rank]
    exact ⟨by omega, nofun⟩
  have hyield : (block [release (.proc p), yield p]).ok Lock.rank Lock.proc (some p) (· = [])
      [.proc p] := by
    refine ok_release_cons mem_cons_self ?_
    rw [erase_cons_head]
    exact ok_singleton (yield_keeps p)
  refine ok_acquire_cons below_nil (ok_singleton ?_)
  refine ⟨⟨mem_cons_self, ?_⟩, hyield, ?_, hfree.cons hyield⟩
  · rw [erase_cons_head]
  · refine hfree.cons (hfree.loop.cons (ok_release_cons mem_cons_self ?_))
    rw [erase_cons_head]
    exact ok_singleton (exit_keeps p)

end Files

/-! ## §6. The schedulers. -/

theorem rrScan_keeps : Keeps none rrScan [] := by
  refine forSlots_keeps fun p => .locked below_nil (Balanced.maybe ?_)
  exact fun _ => ⟨rfl, rfl⟩

def scanHeld (minCuProc : Option Slot) : List Lock :=
  (minCuProc.map Lock.proc).toList ++ [.procLock]

section

variable (proc : Slot → Proc)

include proc

theorem scanStep_locks (s : Sched.ScanState) (p : Slot) :
    ((Sched.scanStep proc s p).minCuProc = s.minCuProc ∧
        (Sched.scanStep proc s p).locks = s.locks ++ [.acquire p] ++ [.release p]) ∨
      ((Sched.scanStep proc s p).minCuProc = some p ∧ (Sched.scanStep proc s p).locks =
          s.locks ++ [.acquire p] ++ (s.minCuProc.map Sched.LockOp.release).toList) := by
  unfold Sched.scanStep
  dsimp only
  split
  · split
    · exact .inl ⟨rfl, rfl⟩
    · exact .inr ⟨rfl, rfl⟩
  · split
    · split
      · next q hq =>
        split
        · exact .inr ⟨rfl, by rw [hq]; rfl⟩
        · exact .inl ⟨hq.symm ▸ rfl, rfl⟩
      · exact .inl ⟨rfl, rfl⟩
    · exact .inl ⟨rfl, rfl⟩

theorem scanStep_ok (s : Sched.ScanState) (p : Slot)
    (hp : ∀ c, s.minCuProc = some c → c < p) {Q : List Lock → Prop}
    (hQ : Q (scanHeld (Sched.scanStep proc s p).minCuProc))
    (hs : ∀ R : List Lock → Prop, R (scanHeld s.minCuProc) →
      (block (s.locks.map scanOp)).ok Lock.rank Lock.proc none R [.procLock]) :
    (block ((Sched.scanStep proc s p).locks.map scanOp)).ok Lock.rank Lock.proc none Q
      [.procLock] := by
  have hbelow : ∀ l ∈ scanHeld s.minCuProc, l.rank < (Lock.proc p).rank := by
    intro l hl
    unfold scanHeld at hl
    rcases mem_append.mp hl with hc | hc
    · obtain ⟨c, hsel, rfl⟩ := Option.map_eq_some_iff.mp (Option.mem_toList.mp hc)
      have : c.val < p.val := hp c hsel
      show 10 + c.val < 10 + p.val
      omega
    · rw [mem_singleton.mp hc]
      show 1 < 10 + p.val
      omega
  rcases scanStep_locks proc s p with ⟨hsame, hlocks⟩ | ⟨htake, hlocks⟩
  · rw [hsame] at hQ
    rw [hlocks, append_assoc, map_append, ok_block_append]
    refine hs _ (ok_acquire_cons hbelow (ok_release_cons mem_cons_self ?_))
    rw [erase_cons_head]
    exact hQ
  · rw [htake] at hQ
    rw [hlocks, append_assoc, map_append, ok_block_append]
    refine hs _ (ok_acquire_cons hbelow ?_)
    cases hc : s.minCuProc with
    | none => exact hQ
    | some c =>
      -- the lock of the process selected before is the second one held
      have hne : Lock.proc p ≠ Lock.proc c := by
        intro he
        have := hp c hc
        rw [Lock.proc.inj he] at this
        exact lt_irrefl _ this
      refine ok_release_cons (mem_cons_of_mem _ mem_cons_self) ?_
      show Q ((Lock.proc p :: Lock.proc c :: [.procLock]).erase (Lock.proc c))
      rw [erase_cons_tail (by simpa using hne), erase_cons_head]
      exact hQ

theorem scan_ok (quotaEnable : Bool) (l : List Slot) (hl : l.Pairwise (· < ·)) :
    (∀ c, (l.foldl (Sched.scanStep proc) (Sched.scanInit quotaEnable)).minCuProc = some c → c ∈ l) ∧
      ∀ Q : List Lock → Prop,
        Q (scanHeld (l.foldl (Sched.scanStep proc) (Sched.scanInit quotaEnable)).minCuProc) →
        (block ((l.foldl (Sched.scanStep proc) (Sched.scanInit quotaEnable)).locks.map scanOp)).ok
          Lock.rank Lock.proc none Q [.procLock] := by
  induction l using List.reverseRecOn with
  | nil => exact ⟨nofun, fun Q hQ => hQ⟩
  | append_singleton l p ih =>
    obtain ⟨hl, _, hbefore⟩ := pairwise_append.mp hl
    obtain ⟨hmem, hok⟩ := ih hl
    rw [foldl_append]
    show (∀ c, (Sched.scanStep proc _ p).minCuProc = some c → _) ∧ _
    constructor
    · intro c hc
      rcases scanStep_locks proc
        (l.foldl (Sched.scanStep proc) (Sched.scanInit quotaEnable)) p with h | h
      · rw [h.1] at hc
        exact mem_append_left _ (hmem c hc)
      · rw [h.1] at hc
        cases hc
        exact mem_append_right _ mem_cons_self
    · intro Q hQ
      refine scanStep_ok proc _ p (fun c hc => ?_) hQ hok
      exact hbefore c (hmem c hc) p mem_cons_self

theorem minCuRound_keeps (quotaEnable : Bool) : Keeps none (minCuRound proc quotaEnable) [] := by
  have hscan := (scan_ok proc quotaEnable (List.finRange NPROC) (pairwise_lt_finRange _)).2
  refine ok_acquire_cons below_nil (hscan _ (ok_release_cons ?_ ?_))
  · exact mem_append_right _ mem_cons_self
  · refine ok_singleton ?_
    show ok _ _ _ _ _ ((scanHeld (Sched.scan proc quotaEnable).minCuProc).erase .procLock)
    generalize (Sched.scan proc quotaEnable).minCuProc = min
    cases min with
    | none => exact rfl
    | some p =>
      have hrun : Keeps none (if (Sched.pickThread (proc p)).isSome then swtch p else skip)
          [.proc p] := by
        split
        · exact fun _ => ⟨rfl, rfl⟩
        · exact .skip
      refine hrun.cons (ok_release_cons mem_cons_self ?_)
      rw [erase_cons_head]
      exact rfl

end

/-! ## §7. Runs. -/

theorem kernel_orderly : Orderly kernel Lock.rank (· ≠ Call.cpuUsage) where
  intr := timer_keeps
  call p k hk := by
    cases k with
    | sysSleep => exact sysSleep_keeps p
    | sysUptime => exact brief_keeps below_nil
    | cpuUsage => exact absurd rfl hk
    | kill => exact killFrom_keeps _
    | exit => exact exit_keeps p
    | wait => exact wait_keeps p
    | createThread => exact createThread_keeps p
    | threadCleanup => exact threadCleanup_keeps p
  round r := by
    cases r with
    | rr => exact rrScan_keeps
    | minCu proc quotaEnable => exact minCuRound_keeps proc quotaEnable

/-- **No CPUs spin in a circle**, in any run of any number of CPUs in which
nobody calls cpu_usage. -/
theorem locks_acyclic (n : Nat) (s : State n Lock Slot) (h : RunWith n (· ≠ Call.cpuUsage) s) :
    ¬ Deadlocked s := (run_inv kernel_orderly h).acyclic

def firstCalls (call : Call) (k : Nat) : List (Move 2 Slot Call Round) :=
  .round 1 .rr :: List.replicate 7 (.exec 1 0) ++ .call 1 call :: List.replicate k (.exec 1 0)

def clockTicks (k : Nat) : List (Move 2 Slot Call Round) :=
  .interrupt 0 :: List.replicate k (.exec 0 0)

theorem firstCalls_allowed (allowed : Call → Prop) {call : Call} (hcall : allowed call)
    (j k : Nat) : ∀ m ∈ firstCalls call j ++ clockTicks k, Kernel.Allows allowed m := by
  intro m hm
  simp only [firstCalls, clockTicks, mem_append, mem_cons, mem_replicate] at hm
  rcases hm with ((rfl | ⟨_, rfl⟩) | rfl | ⟨_, rfl⟩) | rfl | ⟨_, rfl⟩
  all_goals first | exact hcall | exact trivial

theorem spins_of_asks {n : Nat} {s : State n Lock Slot} {c d : Fin n} {l : Lock}
    (h : (s.cpu c).asks = some l ∧ l ∈ (s.cpu d).held) : Spins s c d := ⟨l, h⟩

/-- sys_sleep has tickslock, and clockintr waits for it. -/
theorem locks_acyclic_sysSleep :
    ∃ s : State 2 Lock Slot, RunWith 2 (· ≠ Call.cpuUsage) s ∧ Spins s 0 1 ∧ ¬ Deadlocked s := by
  have hmoves : ((kernel.runMoves kernel.boot (firstCalls .sysSleep 3 ++ clockTicks 2)).any
      fun s => (s.cpu 0).asks = some .tickslock ∧ .tickslock ∈ (s.cpu 1).held) = true := by
    decide +kernel
  have hallowed := firstCalls_allowed (· ≠ Call.cpuUsage) (nofun : Call.sysSleep ≠ Call.cpuUsage) 3 2
  obtain ⟨s, hs, htest⟩ := exists_run_runMoves hallowed hmoves
  exact ⟨s, hs, spins_of_asks (of_decide_eq_true htest), locks_acyclic 2 s hs⟩

/-- CPU 0 is in clockintr and waits for `p->lock`; CPU 1 is in cpu_usage with `p->lock` and waits
for tickslock. -/
theorem cpuUsage_deadlock :
    ∃ s : State 2 Lock Slot, RunWith 2 (fun _ => True) s ∧ Spins s 0 1 ∧ Spins s 1 0 ∧
      Deadlocked s := by
  have hmoves : ((kernel.runMoves kernel.boot (firstCalls .cpuUsage 4 ++ clockTicks 7)).any
      fun s => ((s.cpu 0).asks = some (.proc 0) ∧ .proc 0 ∈ (s.cpu 1).held) ∧
        (s.cpu 1).asks = some .tickslock ∧ .tickslock ∈ (s.cpu 0).held) = true := by
    decide +kernel
  have hallowed := @firstCalls_allowed (fun _ => True) .cpuUsage trivial 4 7
  obtain ⟨s, hs, htest⟩ := exists_run_runMoves hallowed hmoves
  obtain ⟨h01, h10⟩ := of_decide_eq_true htest
  have hspin : Spins s 0 1 := spins_of_asks h01
  have hback : Spins s 1 0 := spins_of_asks h10
  exact ⟨s, hs, hspin, hback, 0, (Relation.TransGen.single hspin).tail hback⟩

end Xv6.Locks
