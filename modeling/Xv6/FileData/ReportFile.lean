/-
  Xv6.FileData.ReportFile — the header of /reports.bin.

  store_trap counts the crash in memory, under the lock of the report list, and then, with
  no lock, writes the count to the start of the file and the report to its end.  The count in
  memory starts at zero at every boot; the file does not.
-/
import Xv6.FileData.Data
import Xv6.Fs.Reports
import Xv6.Lib.Run

namespace Xv6.ReportFile

open Lib Fs FileData

/-! ## §1. The machine. -/

structure KFile where
  ref : Bool
  ip : Bool
  off : Nat
  deriving DecidableEq

inductive Pc where
  | idle
  | opened (f : Fin NFILE) (r : Bytes)
  /-- Past `if (f->ip == NULL)`. -/
  | created (f : Fin NFILE) (r : Bytes)
  /-- Past the assignments to `*f`. -/
  | ready (f : Fin NFILE) (r : Bytes)
  /-- Past the critical section, with the count taken there. -/
  | counted (f : Fin NFILE) (r : Bytes) (count : Int32)
  /-- Past `kfileseek(f, 0, SEEK_SET)`. -/
  | atStart (f : Fin NFILE) (r : Bytes) (count : Int32)
  | headed (f : Fin NFILE) (r : Bytes)
  /-- Past `kfileseek(f, 0, SEEK_END)`. -/
  | atEnd (f : Fin NFILE) (r : Bytes)
  | written (f : Fin NFILE)
  | fault

structure State where
  data : Data
  locked : Bool
  file : Fin NFILE → KFile
  list : ReportList
  pc : Slot → Pc
  panicked : Bool

inductive Act where
  /-- `store_trap(r)` is called: kfilealloc. -/
  | crash (p : Slot) (r : Bytes)
  /-- `if (f->ip == NULL) …`; `ok` is false if kfilecreate returns 0. -/
  | create (p : Slot) (ok : Bool)
  | assign (p : Slot)
  | push (p : Slot)
  | seekStart (p : Slot)
  | writeCount (p : Slot)
  | seekEnd (p : Slot)
  | writeReport (p : Slot)
  | close (p : Slot)
  /-- Others take or give back blocks of the disk. -/
  | blocks (free : Nat)
  | reboot

namespace State

def goto (s : State) (p : Slot) (pc : Pc) : State := { s with pc := put s.pc p pc }

def setFile (s : State) (f : Fin NFILE) (file : KFile) : State :=
  { s with file := put s.file f file }

/-- A null pointer is followed: kerneltrap panics. -/
def die (s : State) (p : Slot) : State := { (s.goto p .fault) with panicked := true }

def boot (data : Data) : State :=
  { data := data, locked := false, file := fun _ => ⟨false, false, 0⟩
    list := { reports := fun _ _ => 0, count := 0, writeIndex := 0 }
    pc := fun _ => .idle, panicked := false }

def firstFree (s : State) : Option (Fin NFILE) :=
  (List.finRange NFILE).find? fun f => (s.file f).ref = false

def kfilewrite (s : State) (f : Fin NFILE) (src : Bytes) (n : Nat) : State :=
  let r := writei s.data (fun i => some (src i)) (s.file f).off n
  { s with
    data := r.1
    file := put s.file f
      { s.file f with off := if 0 < r.2 then (s.file f).off + r.2.toNat else (s.file f).off } }

/-- kfileseek to a position, which has to be inside the file. -/
def kfileseek (s : State) (f : Fin NFILE) (position : Nat) : State :=
  if s.data.size < position then s else s.setFile f { s.file f with off := position }

def advance (s : State) (p : Slot) : Act → Pc → Option State
  | .crash _ r, .idle =>
    match s.firstFree with
    | none => some (s.die p)
    | some f => some ((s.setFile f { s.file f with ref := true }).goto p (.opened f r))
  | .create _ ok, .opened f r =>
    if (s.file f).ip = true then some (s.goto p (.created f r))
    else if s.locked = true then none
    else if ok then
      some { (s.setFile f { s.file f with ip := true }).goto p (.created f r) with locked := true }
    else some (s.goto p (.created f r))
  | .assign _, .created f r =>
    some ((s.setFile f { s.file f with off := 0, ref := true }).goto p (.ready f r))
  | .push _, .ready f r =>
    some { s.goto p (.counted f r (s.list.count + 1)) with
      list :=
        { reports := put s.list.reports s.list.writeIndex r
          count := s.list.count + 1
          writeIndex := (s.list.writeIndex + 1) % REPORT_BUFFER_SIZE } }
  | .seekStart _, .counted f r count =>
    if (s.file f).ip = true then some ((s.kfileseek f 0).goto p (.atStart f r count))
    else some (s.die p)
  | .writeCount _, .atStart f r count =>
    some ((s.kfilewrite f (byteOf count.toUInt32.toNat) 4).goto p (.headed f r))
  | .seekEnd _, .headed f r => some ((s.kfileseek f s.data.size).goto p (.atEnd f r))
  | .writeReport _, .atEnd f r => some ((s.kfilewrite f r REPORT).goto p (.written f))
  | .close _, .written f => some ((s.setFile f { s.file f with ref := false }).goto p .idle)
  | _, _ => none

end State

def Act.proc : Act → Option Slot
  | .crash p _ | .create p _ | .assign p | .push p | .seekStart p | .writeCount p | .seekEnd p
  | .writeReport p | .close p => some p
  | .blocks _ | .reboot => none

def step (s : State) (a : Act) : Option State :=
  match a with
  | .reboot => some (State.boot s.data)
  | .blocks free => if s.panicked then none else some { s with data := { s.data with free := free } }
  | a =>
    match a.proc with
    | some p => if s.panicked then none else s.advance p a (s.pc p)
    | none => none

def Quiet (s : State) : Prop := ∀ p, s.pc p = .idle

def Start (s : State) : Prop :=
  ∃ free, s = State.boot { bytes := fun _ => 0, size := 0, mapped := 0, indirect := false, free := free }

def RunWith (ok : State → Act → Prop) : State → Prop :=
  Reachable Start fun s s' => ∃ a, step s a = some s' ∧ ok s a

/-! ## §2. The header. -/

def headerOf (d : Data) : Int := (get32 d.bytes 0).toInt32.toInt

def records (d : Data) : Nat := (d.size - 4) / REPORT

/-- The header counts the reports; an empty file has no header. -/
def HeaderExact (d : Data) : Prop := d.size = 0 ∨ headerOf d = records d

/-- A file with `n` reports and this count in front. -/
structure Stored (d : Data) (n count : Nat) : Prop where
  size : d.size = if count = 0 then 0 else 4 + REPORT * n
  header : count ≠ 0 → get32 d.bytes 0 = UInt32.ofNat count
  few : REPORT * n ≤ MAXFILE * BSIZE

theorem Stored.lt {d : Data} {n count : Nat} (h : Stored d n count) : n < 1000 := by
  have hfew := h.few
  have hreport : REPORT = 304 := rfl
  have hmax : MAXFILE * BSIZE = 274432 := rfl
  rw [hreport, hmax] at hfew
  omega

variable {n : Nat} {s s' : State} {p : Slot} {a : Act}

theorem Stored.headerExact {d : Data} (h : Stored d n n) : HeaderExact d := by
  by_cases h0 : n = 0
  · left
    rw [h.size, if_pos h0]
  · right
    have hlt := h.lt
    have hsize := h.size
    rw [if_neg h0] at hsize
    have hrec : records d = n := by
      unfold records
      rw [hsize, Nat.add_sub_cancel_left]
      exact Nat.mul_div_cancel_left n (by decide)
    rw [headerOf, h.header h0, hrec]
    exact Int32.toInt_ofNat_of_lt (by omega)

/-! ## §3. What is asked of a run. -/

/-- One store_trap at a time, each with room, and no boot once something is stored. -/
def Orderly (s : State) : Act → Prop
  | .crash _ _ => Quiet s
  | .writeCount _ => 4 ≤ s.data.free
  | .writeReport _ => 4 ≤ s.data.free ∧ s.data.size + REPORT ≤ MAXFILE * BSIZE
  | .reboot => s.data.size = 0
  | _ => True

def Phase (s : State) (n : Nat) : Pc → Prop
  | .idle | .opened _ _ | .created _ _ | .ready _ _ => Stored s.data n n ∧ s.list.count = Int32.ofNat n
  | .counted _ _ count =>
    Stored s.data n n ∧ s.list.count = Int32.ofNat (n + 1) ∧ count = Int32.ofNat (n + 1)
  | .atStart f _ count =>
    Stored s.data n n ∧ s.list.count = Int32.ofNat (n + 1) ∧ count = Int32.ofNat (n + 1) ∧
      (s.file f).off = 0
  | .headed _ _ => Stored s.data n (n + 1) ∧ s.list.count = Int32.ofNat (n + 1)
  | .atEnd f _ =>
    Stored s.data n (n + 1) ∧ s.list.count = Int32.ofNat (n + 1) ∧ (s.file f).off = s.data.size
  | .written _ => Stored s.data (n + 1) (n + 1) ∧ s.list.count = Int32.ofNat (n + 1)
  | .fault => True

structure Inv (s : State) (p : Slot) (n : Nat) : Prop where
  alone : ∀ q, q ≠ p → s.pc q = .idle
  phase : Phase s n (s.pc p)

/-! ## §4. The writes. -/

theorem touched_le (off : Nat) (hn : n ≤ BSIZE) : touched off n ≤ 2 := by
  have hB : BSIZE = 1024 := rfl
  unfold touched
  rw [hB] at hn ⊢
  omega

theorem kfilewrite_spec (s : State) (f : Fin NFILE) (src : Bytes) (hn : n ≤ BSIZE)
    (hoff : (s.file f).off ≤ s.data.size) (hmax : (s.file f).off + n ≤ MAXFILE * BSIZE)
    (hfree : 4 ≤ s.data.free) :
    (s.kfilewrite f src n).data.bytes = overlay s.data.bytes (s.file f).off n src ∧
      (s.kfilewrite f src n).data.size = max s.data.size ((s.file f).off + n) := by
  have htouch := touched_le (s.file f).off hn
  obtain ⟨d', hwrite, hbytes, hsize⟩ := writei_spec (fun i => some (src i)) (n := n)
    (fun _ _ => rfl) s.data hoff hmax (by omega)
  unfold State.kfilewrite
  rw [hwrite]
  exact ⟨hbytes, hsize⟩

theorem writeCount_stored {s : State} {f : Fin NFILE} (h : Stored s.data n n)
    (hoff : (s.file f).off = 0) (hfree : 4 ≤ s.data.free) :
    Stored (s.kfilewrite f (byteOf (Int32.ofNat (n + 1)).toUInt32.toNat) 4).data n (n + 1) := by
  have hlt := h.lt
  obtain ⟨hbytes, hsize⟩ := kfilewrite_spec s f (byteOf (Int32.ofNat (n + 1)).toUInt32.toNat)
    (n := 4) (by decide) (by omega) (by rw [hoff]; decide) hfree
  refine ⟨?_, fun _ => ?_, h.few⟩
  · rw [hsize, hoff, h.size, if_neg (Nat.succ_ne_zero n)]
    split
    · next h0 => simp [h0]
    · omega
  · rw [hbytes, hoff]
    refine get32_of_bytes fun k hk => ?_
    rw [overlay_add _ _ hk]
    rfl

theorem writeReport_stored {s : State} {f : Fin NFILE} {r : Bytes}
    (h : Stored s.data n (n + 1)) (hoff : (s.file f).off = s.data.size)
    (hfree : 4 ≤ s.data.free) (hroom : s.data.size + REPORT ≤ MAXFILE * BSIZE) :
    Stored (s.kfilewrite f r REPORT).data (n + 1) (n + 1) := by
  have hsize0 := h.size
  rw [if_neg (Nat.succ_ne_zero n)] at hsize0
  obtain ⟨hbytes, hsize⟩ := kfilewrite_spec s f r (n := REPORT) (by decide) (by omega)
    (by rw [hoff]; exact hroom) hfree
  refine ⟨?_, fun hne => ?_, ?_⟩
  · rw [hsize, hoff, if_neg (Nat.succ_ne_zero n), Nat.mul_succ]
    omega
  · rw [← h.header hne, hbytes]
    -- the header is in front of the report
    exact get32_congr fun k hk => overlay_of_notMem _ _ (by omega)
  · rw [Nat.mul_succ]
    omega

/-! ## §5. Orderly runs. -/

theorem Inv.next {n m : Nat} {pc : Pc} (h : Inv s p n)
    (hpc : s'.pc = put s.pc p pc) (hphase : Phase s' m pc) : Inv s' p m := by
  constructor
  · intro q hq
    rw [hpc, put_of_ne hq]
    exact h.alone q hq
  · rw [hpc, put_self]
    exact hphase

theorem kfileseek_data (s : State) (f : Fin NFILE) (position : Nat) :
    (s.kfileseek f position).data = s.data ∧ (s.kfileseek f position).list = s.list ∧
      (s.kfileseek f position).pc = s.pc := by
  unfold State.kfileseek
  split <;> exact ⟨rfl, rfl, rfl⟩

theorem kfileseek_off (s : State) (f : Fin NFILE) {position : Nat} (h : position ≤ s.data.size) :
    ((s.kfileseek f position).file f).off = position := by
  unfold State.kfileseek
  rw [if_neg (by omega)]
  show (put s.file f _ f).off = _
  rw [put_self]

theorem advance_inv (h : Inv s p n)
    (hs : s.advance p a (s.pc p) = some s') (hok : Orderly s a) : ∃ m, Inv s' p m := by
  have hphase := h.phase
  unfold State.advance at hs
  split at hs
  case h_1 r hpc =>
    rw [hpc] at hphase
    split at hs <;> cases hs
    · exact ⟨n, h.next rfl trivial⟩
    · exact ⟨n, h.next rfl hphase⟩
  case h_2 ok f r hpc =>
    rw [hpc] at hphase
    split at hs
    · cases hs
      exact ⟨n, h.next rfl hphase⟩
    · split at hs
      · cases hs
      · split at hs <;> cases hs <;> exact ⟨n, h.next rfl hphase⟩
  case h_3 f r hpc =>
    rw [hpc] at hphase
    cases hs
    exact ⟨n, h.next rfl hphase⟩
  case h_4 f r hpc =>
    rw [hpc] at hphase
    cases hs
    have hcount : s.list.count + 1 = Int32.ofNat (n + 1) := by
      rw [hphase.2, Int32.ofNat_add]
      rfl
    exact ⟨n, h.next rfl ⟨hphase.1, hcount, hcount⟩⟩
  case h_5 f r count hpc =>
    rw [hpc] at hphase
    split at hs <;> cases hs
    · obtain ⟨hdata, hlist, hpcs⟩ := kfileseek_data s f 0
      refine ⟨n, h.next (by rw [← hpcs]; rfl) ?_⟩
      show Stored (s.kfileseek f 0).data n n ∧ (s.kfileseek f 0).list.count = _ ∧ _ ∧ _
      rw [hdata, hlist]
      exact ⟨hphase.1, hphase.2.1, hphase.2.2, kfileseek_off s f (Nat.zero_le _)⟩
    · exact ⟨n, h.next rfl trivial⟩
  case h_6 f r count hpc =>
    rw [hpc] at hphase
    cases hs
    obtain ⟨hstored, hcount, hlocal, hoff⟩ := hphase
    refine ⟨n, h.next rfl ⟨?_, hcount⟩⟩
    rw [hlocal]
    exact writeCount_stored hstored hoff hok
  case h_7 f r hpc =>
    rw [hpc] at hphase
    cases hs
    obtain ⟨hdata, hlist, hpcs⟩ := kfileseek_data s f s.data.size
    refine ⟨n, h.next (by rw [← hpcs]; rfl) ?_⟩
    show Stored (s.kfileseek f _).data n _ ∧ (s.kfileseek f _).list.count = _ ∧
      _ = (s.kfileseek f _).data.size
    rw [hdata, hlist]
    exact ⟨hphase.1, hphase.2, kfileseek_off s f le_rfl⟩
  case h_8 f r hpc =>
    rw [hpc] at hphase
    cases hs
    exact ⟨n, h.next rfl ⟨writeReport_stored hphase.1 hphase.2.2 hok.1 hok.2, hphase.2.1⟩⟩
  case h_9 f hpc =>
    rw [hpc] at hphase
    cases hs
    exact ⟨n + 1, h.next rfl hphase⟩
  case h_10 => cases hs

theorem step_proc (ha : a.proc = some p)
    (hs : step s a = some s') : s.advance p a (s.pc p) = some s' := by
  have hstep : step s a = if s.panicked then none else s.advance p a (s.pc p) := by
    cases a <;> simp_all [step, Act.proc]
  rw [hstep] at hs
  split at hs
  · cases hs
  · exact hs

theorem advance_idle (hpc : s.pc p = .idle)
    (hs : s.advance p a (s.pc p) = some s') : ∃ q r, a = .crash q r := by
  rw [hpc] at hs
  cases a <;> simp_all [State.advance]

/-- **One orderly step.** -/
theorem step_inv (h : ∃ p n, Inv s p n) (hs : step s a = some s')
    (hok : Orderly s a) : ∃ p n, Inv s' p n := by
  obtain ⟨p, n, hinv⟩ := h
  cases hproc : a.proc with
  | some q =>
    have hadv := step_proc hproc hs
    by_cases hqp : q = p
    · rw [hqp] at hadv
      obtain ⟨m, hm⟩ := advance_inv hinv hadv hok
      exact ⟨p, m, hm⟩
    · -- the process was idle, so it starts a store_trap while nobody else is in one
      obtain ⟨_, r, rfl⟩ := advance_idle (hinv.alone q hqp) hadv
      have hquiet : Quiet s := hok
      have hphase : Phase s n (s.pc q) := by
        rw [hquiet q, ← hquiet p]
        exact hinv.phase
      obtain ⟨m, hm⟩ := advance_inv ⟨fun x _ => hquiet x, hphase⟩ hadv hok
      exact ⟨q, m, hm⟩
  | none =>
    cases a with
    | reboot =>
      cases hs
      refine ⟨0, 0, fun _ _ => rfl, ⟨?_, fun hne => absurd rfl hne, Nat.zero_le _⟩, rfl⟩
      exact hok
    | blocks free =>
      simp only [step] at hs
      split at hs
      · cases hs
      · cases hs
        refine ⟨p, n, hinv.alone, ?_⟩
        have hphase := hinv.phase
        show Phase _ n (s.pc p)
        cases hpc : s.pc p <;> rw [hpc] at hphase <;>
          first
          | exact trivial
          | exact ⟨⟨hphase.1.size, hphase.1.header, hphase.1.few⟩, hphase.2⟩
    | _ => cases hproc

theorem orderly_inv {s : State} (h : RunWith Orderly s) : ∃ p n, Inv s p n := by
  refine Reachable.invariant (fun s => ∃ p n, Inv s p n) ?_ ?_ h
  · rintro s ⟨free, rfl⟩
    exact ⟨0, 0, fun _ _ => rfl, ⟨rfl, fun hne => absurd rfl hne, Nat.zero_le _⟩, rfl⟩
  · rintro s s' hinv ⟨a, hstep, hok⟩
    exact step_inv hinv hstep hok

/-- **The header counts the reports in every orderly run.** -/
theorem header_counts_records {s : State} (h : RunWith Orderly s) (hquiet : Quiet s) :
    HeaderExact s.data := by
  obtain ⟨p, n, hinv⟩ := orderly_inv h
  have hphase := hinv.phase
  rw [hquiet p] at hphase
  exact hphase.1.headerExact

/-! ## §6. A crash, a boot and another crash. -/

def storeTrapActs (p : Slot) (r : Bytes) : List Act :=
  [.crash p r, .create p true, .assign p, .push p, .seekStart p, .writeCount p, .seekEnd p,
    .writeReport p, .close p]

def emptyDisk : State :=
  State.boot { bytes := fun _ => 0, size := 0, mapped := 0, indirect := false, free := 100 }

def Pc.isIdle : Pc → Bool
  | .idle => true
  | _ => false

theorem Pc.isIdle_iff (pc : Pc) : pc.isIdle = true ↔ pc = .idle := by
  cases pc <;> simp [Pc.isIdle]

instance (s : State) : Decidable (Quiet s) :=
  decidable_of_iff (∀ p, (s.pc p).isIdle = true) (forall_congr' fun p => (s.pc p).isIdle_iff)

instance (s : State) : (a : Act) → Decidable (Orderly s a)
  | .crash _ _ => inferInstanceAs (Decidable (Quiet s))
  | .writeCount _ => inferInstanceAs (Decidable (_ ≤ _))
  | .writeReport _ => inferInstanceAs (Decidable (_ ∧ _))
  | .reboot => inferInstanceAs (Decidable (_ = _))
  | .create _ _ | .assign _ | .push _ | .seekStart _ | .seekEnd _ | .close _ | .blocks _ =>
    isTrue trivial

theorem RunWith.runActs {ok : State → Act → Prop} [∀ s a, Decidable (ok s a)] {s : State}
    {acts : List Act} (h : runActs (stepIf step ok) emptyDisk acts = some s) : RunWith ok s :=
  Reachable.runIf (.start ⟨100, rfl⟩) h

/-- Two crashes without a boot in between. -/
theorem header_counts_two_crashes :
    ∃ s, RunWith Orderly s ∧ records s.data = 2 ∧ HeaderExact s.data := by
  have hacts : (Lib.runActs (stepIf step Orderly) emptyDisk
      (storeTrapActs 1 (fun _ => 7) ++ storeTrapActs 2 (fun _ => 9))).any
        (fun s => Quiet s ∧ records s.data = 2) = true := by decide +kernel
  obtain ⟨s, hs, htest⟩ := (Option.any_eq_true _ _).mp hacts
  obtain ⟨hquiet, hrecords⟩ := of_decide_eq_true htest
  have hrun : RunWith Orderly s := .runActs hs
  exact ⟨s, hrun, hrecords, header_counts_records hrun hquiet⟩

/-- **The count starts again at every boot**: the file holds two reports, and its header says one.
-/
theorem header_after_reboot : ∃ s, RunWith (fun _ _ => True) s ∧ Quiet s ∧
    s.data.size < MAXFILE * BSIZE ∧ records s.data = 2 ∧ headerOf s.data = 1 ∧
    ¬ HeaderExact s.data := by
  have hacts : (Lib.runActs (stepIf step fun _ _ => True) emptyDisk
      (storeTrapActs 1 (fun _ => 7) ++ [.reboot] ++ storeTrapActs 1 (fun _ => 9))).any
        (fun s => Quiet s ∧ s.data.size < MAXFILE * BSIZE ∧ s.data.size ≠ 0 ∧
          records s.data = 2 ∧ headerOf s.data = 1) = true := by decide +kernel
  obtain ⟨s, hs, htest⟩ := (Option.any_eq_true _ _).mp hacts
  obtain ⟨hquiet, hmax, hsize, hrecords, hheader⟩ := of_decide_eq_true htest
  refine ⟨s, .runActs hs, hquiet, hmax, hrecords, hheader, ?_⟩
  rintro (hempty | hexact)
  · exact hsize hempty
  · rw [hheader, hrecords] at hexact
    exact absurd hexact (by decide)

end Xv6.ReportFile
