/-
  Xv6.FileData.ReadBack — sysrep and the file that store_trap has written.

  sysrep reads the count and then up to ten records, from 10 * sizeof(struct report) before
  the end on.  In a file of fewer records that seek fails, and the offset stays behind the
  count, where the first record is.
-/
import Xv6.FileData.ReportFile
import Xv6.Proc.Listings

namespace Xv6.ReportFile

open Lib Fs FileData List

/-! ## §1. sysrep. -/

/-- How much readi copies.  Files have no holes: below `size` there is a block. -/
def readLength (d : Data) (off n : Nat) : Nat := if d.size < off then 0 else min n (d.size - off)

/-- kfileread at `off` into the bytes of `*rt` from `o` on, and `f->off` behind it. -/
def readInto (d : Data) (off : Nat) (rt : Bytes) (o n : Nat) : Bytes × Nat :=
  (overlay rt o (readLength d off n) fun i => d.bytes (off + i), off + readLength d off n)

def readRecords (d : Data) : Nat → Nat → Nat → Bytes → Bytes
  | 0, _, _, rt => rt
  | fuel + 1, i, off, rt =>
    if (i : Int) < (rtCount rt).toInt then
      let r := readInto d off rt (i * REPORT) REPORT
      readRecords d fuel (i + 1) r.2 r.1
    else rt

def sysrepRead (d : Data) (rt : Bytes) : Bytes :=
  let r := readInto d 0 rt (REPORT_BUFFER_SIZE * REPORT) 4
  let off := if d.size < 10 * REPORT then r.2 else d.size - 10 * REPORT
  readRecords d REPORT_BUFFER_SIZE 0 off r.1

def sysrep (s : State) (rt : Bytes) : Option Bytes :=
  s.firstFree.map fun f => if (s.file f).ip = true then sysrepRead s.data rt else rt

/-! ## §2. The file. -/

structure Holds (d : Data) (l : List Bytes) : Prop extends Stored d l.length l.length where
  record : ∀ i (hi : i < l.length), ∀ k < REPORT, d.bytes (4 + REPORT * i + k) = l.get ⟨i, hi⟩ k

def listOf (l : List Bytes) : ReportList :=
  l.foldl (fun list r =>
    { reports := put list.reports list.writeIndex r
      count := list.count + 1
      writeIndex := (list.writeIndex + 1) % REPORT_BUFFER_SIZE })
    { reports := fun _ _ => 0, count := 0, writeIndex := 0 }

structure Reported (s : State) (l : List Bytes) : Prop where
  holds : Holds s.data l
  list : s.list = listOf l
  closed : ∀ f, (s.file f).ref = false
  ip : l ≠ [] → (s.file 0).ip = true

/-- The states after calls of store_trap one after the other, each with room;
`l` are the reports. -/
inductive Stores : State → List Bytes → Prop
  | start {s : State} (h : Start s) : Stores s []
  | store {s s' : State} {l : List Bytes} {p : Slot} {r : Bytes} (h : Stores s l)
      (hrun : runActs (stepIf step Orderly) s (storeTrapActs p r) = some s') : Stores s' (l ++ [r])
  | blocks {s : State} {l : List Bytes} (h : Stores s l) (free : Nat) :
      Stores { s with data := { s.data with free := free } } l

section Store

variable {s s' : State} {l : List Bytes} {f : Fin NFILE} {p : Slot} {r : Bytes}

theorem listOf_append : listOf (l ++ [r]) =
    { reports := put (listOf l).reports (listOf l).writeIndex r
      count := (listOf l).count + 1
      writeIndex := ((listOf l).writeIndex + 1) % REPORT_BUFFER_SIZE } := by
  simp [listOf, foldl_append]

theorem listOf_count (l : List Bytes) : (listOf l).count = Int32.ofNat l.length := by
  induction l using List.reverseRecOn with
  | nil => rfl
  | append_singleton l r ih =>
    rw [listOf_append, length_append, Int32.ofNat_add, ← ih]
    rfl

theorem holds_written (h : Holds s.data l) (hoff : (s.file f).off = 0) (hfree : 4 ≤ s.data.free)
    {t : State} (hdata : t.data =
      (s.kfilewrite f (byteOf (Int32.ofNat (l.length + 1)).toUInt32.toNat) 4).data)
    (hend : (t.file f).off = t.data.size) (hfree' : 4 ≤ t.data.free)
    (hroom : t.data.size + REPORT ≤ MAXFILE * BSIZE) :
    Holds (t.kfilewrite f r REPORT).data (l ++ [r]) := by
  have hhead := writeCount_stored h.toStored hoff hfree
  obtain ⟨hbytes, -⟩ := kfilewrite_spec s f (byteOf (Int32.ofNat (l.length + 1)).toUInt32.toNat)
    (n := 4) (by decide) (by omega) (by rw [hoff]; decide) hfree
  obtain ⟨hbytes', -⟩ := kfilewrite_spec t f r (n := REPORT) (by decide) (by omega)
    (by rw [hend]; exact hroom) hfree'
  rw [← hdata] at hhead hbytes
  have hlen := hhead.size
  rw [if_neg (Nat.succ_ne_zero _)] at hlen
  rw [hoff] at hbytes
  rw [hend, hlen] at hbytes'
  constructor
  · simpa using writeReport_stored hhead hend hfree' hroom
  · intro i hi k hk
    rw [length_append, length_singleton] at hi
    rw [hbytes']
    rcases Nat.lt_or_ge i l.length with hlt | hge
    · have hle : REPORT * (i + 1) ≤ REPORT * l.length := Nat.mul_le_mul_left _ hlt
      rw [Nat.mul_succ] at hle
      rw [overlay_of_notMem _ _ (.inl (by omega)), hbytes,
        overlay_of_notMem _ _ (.inr (by omega)), h.record i hlt k hk]
      simp [getElem_append_left hlt]
    · obtain rfl : i = l.length := by omega
      rw [overlay_add _ _ hk]
      simp

section

variable (s : State) (f g : Fin NFILE)

theorem put_off (off : Nat) :
    (put s.file f { s.file f with off := off } g).ref = (s.file g).ref ∧
      (put s.file f { s.file f with off := off } g).ip = (s.file g).ip := by
  by_cases hg : g = f
  · rw [hg, put_self]
    exact ⟨rfl, rfl⟩
  · rw [put_of_ne hg]
    exact ⟨rfl, rfl⟩

theorem kfilewrite_file (src : Bytes) (n : Nat) :
    ((s.kfilewrite f src n).file g).ref = (s.file g).ref ∧
      ((s.kfilewrite f src n).file g).ip = (s.file g).ip := put_off ..

theorem kfileseek_file (n : Nat) : ((s.kfileseek f n).file g).ref = (s.file g).ref ∧
      ((s.kfileseek f n).file g).ip = (s.file g).ip := by
  unfold State.kfileseek
  split
  · exact ⟨rfl, rfl⟩
  · exact put_off ..

end

theorem firstFree_zero (h : ∀ f, (s.file f).ref = false) : s.firstFree = some 0 := by
  unfold State.firstFree
  rw [show List.finRange NFILE = 0 :: (List.finRange 99).map Fin.succ from finRange_succ]
  exact List.find?_cons_of_pos (decide_eq_true (h 0))

theorem run_next {a : Act} {acts : List Act} (ha : a.proc = some p)
    (h : runActs (stepIf step Orderly) s (a :: acts) = some s') :
    ∃ t, s.panicked = false ∧ Orderly s a ∧ s.advance p a (s.pc p) = some t ∧
      runActs (stepIf step Orderly) t acts = some s' := by
  obtain ⟨t, ht, hrest⟩ := runActs_cons h
  unfold stepIf at ht
  split at ht
  · next hok =>
    refine ⟨t, ?_, hok, step_proc ha ht, hrest⟩
    by_contra hp
    rw [Bool.not_eq_false] at hp
    cases a <;> simp_all [step, Act.proc]
  · cases ht

structure Counted (s : State) (l : List Bytes) (p : Slot) (r : Bytes) (t : State) : Prop where
  data : t.data = s.data
  list : t.list = listOf (l ++ [r])
  pc : t.pc p = .atStart 0 r (Int32.ofNat (l.length + 1))
  off : (t.file 0).off = 0
  ip : (t.file 0).ip = true
  closed : ∀ f, f ≠ 0 → (t.file f).ref = false

section

variable (h : Reported s l) (hrun : runActs (stepIf step Orderly) s (storeTrapActs p r) = some s')

include h hrun

theorem Reported.counted : ∃ t, Counted s l p r t ∧ runActs (stepIf step Orderly) t
      [.writeCount p, .seekEnd p, .writeReport p, .close p] = some s' := by
  have hcount : s.list.count + 1 = Int32.ofNat (l.length + 1) := by
    rw [h.list, listOf_count, Int32.ofNat_add]
    rfl
  -- kfilealloc and kfilecreate
  obtain ⟨s₁, _, hquiet, h₁, hrun⟩ := run_next (p := p) rfl hrun
  rw [show s.pc p = .idle from hquiet p, State.advance, firstFree_zero h.closed] at h₁
  cases h₁
  obtain ⟨s₂, _, _, h₂, hrun⟩ := run_next (p := p) rfl hrun
  rw [show State.pc _ p = .opened 0 r from put_self ..] at h₂
  obtain ⟨hdata₂, hlist₂, hpc₂, hfile₂⟩ : s₂.data = s.data ∧ s₂.list = s.list ∧
      s₂.pc p = .created 0 r ∧ ∀ g, g ≠ 0 → s₂.file g = s.file g := by
    simp only [State.advance] at h₂
    split at h₂
    · cases h₂
      exact ⟨rfl, rfl, put_self .., fun g hg => put_of_ne hg⟩
    · split at h₂ <;> cases h₂
      exact ⟨rfl, rfl, put_self .., fun g hg => (put_of_ne hg).trans (put_of_ne hg)⟩
  -- the assignments and the report list
  obtain ⟨s₃, _, _, h₃, hrun⟩ := run_next (p := p) rfl hrun
  rw [hpc₂] at h₃
  cases h₃
  obtain ⟨s₄, _, _, h₄, hrun⟩ := run_next (p := p) rfl hrun
  rw [show State.pc _ p = .ready 0 r from put_self ..] at h₄
  obtain ⟨hdata₄, hlist₄, hpc₄, hfile₄⟩ : s₄.data = s.data ∧ s₄.list = listOf (l ++ [r]) ∧
      s₄.pc p = .counted 0 r (Int32.ofNat (l.length + 1)) ∧
      ∀ g, g ≠ 0 → (s₄.file g).ref = false := by
    obtain rfl := Option.some.inj h₄
    refine ⟨hdata₂, ?_, ?_, fun g hg => ?_⟩
    · rw [listOf_append, ← h.list, ← hlist₂]
      rfl
    · rw [← hcount, ← hlist₂]
      exact put_self ..
    · exact (congrArg _ ((put_of_ne hg).trans (hfile₂ g hg))).trans (h.closed g)
  -- without an inode the seek is the last step
  obtain ⟨s₅, _, _, h₅, hrun⟩ := run_next (p := p) rfl hrun
  have hlive : s₅.panicked = false := (run_next (p := p) rfl hrun).choose_spec.1
  rw [hpc₄, State.advance] at h₅
  refine ⟨s₅, ?_, hrun⟩
  split at h₅ <;> cases h₅
  · next hip =>
    refine ⟨(kfileseek_data ..).1.trans hdata₄, (kfileseek_data ..).2.1.trans hlist₄,
      put_self .., kfileseek_off _ 0 (Nat.zero_le _), ?_, fun g hg => ?_⟩
    · simpa [State.goto, kfileseek_file] using hip
    · simpa [State.goto, kfileseek_file] using hfile₄ g hg
  · cases hlive

/-- **One call of store_trap** puts its report behind the others. -/
theorem Reported.stored : Reported s' (l ++ [r]) := by
  obtain ⟨t, ht, hrun⟩ := h.counted hrun
  obtain ⟨s₁, _, hfree, h₁, hrun⟩ := run_next (p := p) rfl hrun
  rw [ht.pc] at h₁
  cases h₁
  obtain ⟨s₂, _, _, h₂, hrun⟩ := run_next (p := p) rfl hrun
  rw [show State.pc _ p = .headed 0 r from put_self ..] at h₂
  cases h₂
  obtain ⟨s₃, _, hroom, h₃, hrun⟩ := run_next (p := p) rfl hrun
  rw [show State.pc _ p = .atEnd 0 r from put_self ..] at h₃
  cases h₃
  obtain ⟨s₄, _, _, h₄, hrun⟩ := run_next (p := p) rfl hrun
  rw [show State.pc _ p = .written 0 from put_self ..] at h₄
  cases h₄
  cases hrun
  refine ⟨holds_written (s := t) (f := 0) (ht.data ▸ h.holds) ht.off hfree (kfileseek_data ..).1
    ?_ hroom.1 hroom.2, (kfileseek_data ..).2.1.trans ht.list, fun g => ?_, fun _ => ?_⟩
  · exact (kfileseek_off _ 0 le_rfl).trans (congrArg _ (kfileseek_data ..).1).symm
  · by_cases hg : g = 0
    · simp [State.goto, State.setFile, hg]
    · simpa [State.goto, State.setFile, put_of_ne hg, kfilewrite_file, kfileseek_file]
        using ht.closed g hg
  · simpa [State.goto, State.setFile, kfilewrite_file, kfileseek_file] using ht.ip

end

theorem Stores.reported (h : Stores s l) : Reported s l := by
  induction h with
  | start h =>
    obtain ⟨free, rfl⟩ := h
    exact ⟨⟨⟨rfl, fun hne => absurd rfl hne, Nat.zero_le _⟩,
      fun i hi => absurd hi (Nat.not_lt_zero i)⟩, rfl, fun _ => rfl, fun hne => absurd rfl hne⟩
  | store _ hrun ih => exact ih.stored hrun
  | blocks _ free ih =>
    obtain ⟨⟨⟨hsize, hheader, hfew⟩, hrecord⟩, hlist, hclosed, hip⟩ := ih
    exact ⟨⟨⟨hsize, hheader, hfew⟩, hrecord⟩, hlist, hclosed, hip⟩

end Store

/-! ## §3. What sysrep brings back. -/

section Read

variable {d : Data} {l : List Bytes}

theorem rtCount_congr {rt rt' : Bytes}
    (h : ∀ k < 4, rt' (REPORT_BUFFER_SIZE * REPORT + k) = rt (REPORT_BUFFER_SIZE * REPORT + k)) :
    rtCount rt' = rtCount rt := congrArg UInt32.toInt32 (get32_congr h)

theorem readRecords_spec (h : Holds d l) {b : Nat} (hb : b + min l.length 10 = l.length)
    (fuel i : Nat) (rt : Bytes) (hi : i + fuel = 10)
    (hcount : (rtCount rt).toInt = l.length) :
    rtCount (readRecords d fuel i (4 + REPORT * (b + i)) rt) = rtCount rt ∧
      (∀ j < i * REPORT, readRecords d fuel i (4 + REPORT * (b + i)) rt j = rt j) ∧
      ∀ j (hj : b + j < l.length), i ≤ j → ∀ k < REPORT,
        readRecords d fuel i (4 + REPORT * (b + i)) rt (j * REPORT + k) = l.get ⟨b + j, hj⟩ k := by
  induction fuel generalizing i rt with
  | zero => exact ⟨rfl, fun _ _ => rfl, fun j hj hij => by omega⟩
  | succ fuel ih =>
    unfold readRecords
    by_cases hlt : (i : Int) < (rtCount rt).toInt
    · have hin : b + i < l.length := by omega
      have hR : REPORT = 304 := rfl
      have hsize := h.size
      rw [if_neg (by omega)] at hsize
      have hroom : REPORT * (b + i) + REPORT ≤ REPORT * l.length := by
        rw [← Nat.mul_succ]
        exact Nat.mul_le_mul_left _ hin
      have hlen : readLength d (4 + REPORT * (b + i)) REPORT = REPORT := by
        unfold readLength
        rw [if_neg (by omega)]
        omega
      rw [if_pos hlt]
      dsimp only [readInto]
      rw [hlen, show 4 + REPORT * (b + i) + REPORT = 4 + REPORT * (b + (i + 1)) by
        rw [← Nat.add_assoc b, Nat.mul_succ]; omega]
      have hsame : rtCount (overlay rt (i * REPORT) REPORT fun k =>
          d.bytes (4 + REPORT * (b + i) + k)) = rtCount rt := by
        refine rtCount_congr fun k _ => overlay_of_notMem _ _ (.inr ?_)
        show i * 304 + 304 ≤ 10 * 304 + k
        omega
      obtain ⟨hc, hlow, hhigh⟩ := ih (i + 1) (overlay rt (i * REPORT) REPORT fun k =>
        d.bytes (4 + REPORT * (b + i) + k)) (by omega) (by rw [hsame]; exact hcount)
      refine ⟨hc.trans hsame, fun j hj => ?_, fun j hj hij k hk => ?_⟩
      · rw [hlow j (by rw [Nat.succ_mul]; omega), overlay_of_notMem _ _ (.inl hj)]
      · rcases Nat.lt_or_ge i j with hij' | hij'
        · exact hhigh j hj hij' k hk
        · obtain rfl : i = j := by omega
          rw [hlow _ (by rw [Nat.succ_mul]; omega), overlay_add _ _ hk]
          exact h.record _ hj k hk
    · rw [if_neg hlt]
      exact ⟨rfl, fun _ _ => rfl, fun j hj hij => by omega⟩

theorem sysrepRead_spec (h : Holds d l) (hne : l ≠ []) (rt : Bytes) :
    (rtCount (sysrepRead d rt)).toInt = l.length ∧
      ∀ j (hj : l.length - min l.length 10 + j < l.length), ∀ k < REPORT,
        sysrepRead d rt (j * REPORT + k) = l.get ⟨l.length - min l.length 10 + j, hj⟩ k := by
  have hR : REPORT = 304 := rfl
  have hlt := h.lt
  have hsize := h.size
  rw [if_neg (fun h0 => hne (length_eq_zero_iff.mp h0))] at hsize
  have hpos : 0 < l.length := length_pos_iff.mpr hne
  have hlen : readLength d 0 4 = 4 := by
    unfold readLength
    rw [if_neg (by omega)]
    omega
  unfold sysrepRead readInto
  dsimp only
  rw [hlen]
  -- the seek to ten records before the end, or where the count ends
  have hoff : (if d.size < 10 * REPORT then 0 + 4 else d.size - 10 * REPORT) =
      4 + REPORT * (l.length - min l.length 10 + 0) := by
    rw [hsize, hR]
    split <;> omega
  rw [hoff]
  have hcount : (rtCount (overlay rt (REPORT_BUFFER_SIZE * REPORT) 4 fun k =>
      d.bytes (0 + k))).toInt = l.length := by
    have hget : get32 (overlay rt (REPORT_BUFFER_SIZE * REPORT) 4 fun k => d.bytes (0 + k))
        (REPORT_BUFFER_SIZE * REPORT) = get32 d.bytes 0 :=
      get32_congr fun k hk => overlay_add _ _ hk
    rw [rtCount, hget, h.header (by omega)]
    exact Int32.toInt_ofNat_of_lt (by omega)
  obtain ⟨hc, _, hread⟩ := readRecords_spec h (b := l.length - min l.length 10) (by omega) 10 0 _ rfl
    hcount
  exact ⟨by rw [← hcount]; exact congrArg _ hc, fun j hj => hread j hj (Nat.zero_le _)⟩

theorem Reported.sysrep {s : State} (h : Reported s l) (hne : l ≠ []) (rt : Bytes) :
    ∃ out, sysrep s rt = some out ∧ (rtCount out).toInt = l.length ∧
      ∀ j (hj : l.length - min l.length 10 + j < l.length), ∀ k < REPORT,
        out (j * REPORT + k) = l.get ⟨l.length - min l.length 10 + j, hj⟩ k := by
  refine ⟨_, ?_, sysrepRead_spec h.holds hne rt⟩
  simp [ReportFile.sysrep, firstFree_zero h.closed, h.ip hne]

/-- **sysrep brings back the last ten reports**, the oldest first. -/
theorem sysrep_reads_back {s : State} (h : Stores s l) (hne : l ≠ []) (rt : Bytes) :
    ∃ out, ReportFile.sysrep s rt = some out ∧
      ∀ i (hi : i < min l.length REPORT_BUFFER_SIZE), ∀ k < REPORT, out (i * REPORT + k) =
        l.get ⟨l.length - min l.length REPORT_BUFFER_SIZE + i, by omega⟩ k := by
  obtain ⟨out, hout, _, hread⟩ := h.reported.sysrep hne rt
  exact ⟨out, hout, fun i hi => hread i (show l.length - min l.length REPORT_BUFFER_SIZE + i <
    l.length by omega)⟩

end Read

/-! ## §4. myrep and sysrep. -/

section Myrep

open Listings (Report sysMyrep recorded)

def image (r : Report) : Bytes := fun k =>
  if h : k < 16 then r.pname ⟨k, h⟩
  else if k < 20 then byteOf r.pid.toNat (k - 16)
  else if h : k < 276 then
    byteOf (r.ancestors ⟨(k - 20) / 4, by show _ < 64; omega⟩).toNat ((k - 20) % 4)
  else if k < 280 then byteOf r.ancestorsCount (k - 276)
  else if k < 288 then byteOf r.scause.toNat (k - 280)
  else if k < 296 then byteOf r.sepc.toNat (k - 288)
  else byteOf r.stval.toNat (k - 296)

def zeroReport : Report :=
  { pname := fun _ => 0, pid := 0, ancestors := fun _ => 0, ancestorsCount := 0
    scause := 0, sepc := 0, stval := 0, ancestors_le := Nat.zero_le _ }

/-- The report list as bytes and as reports. -/
def Mirrors (list : ReportList) (list' : Listings.ReportList) : Prop :=
  list.count = list'.count ∧ list.writeIndex = list'.writeIndex.val ∧
    ∀ i, list.reports (Fin.val i) = image (list'.reports i)

theorem mirrors_recorded (l : List Report) :
    Mirrors (listOf (l.map image)) (recorded (fun _ => zeroReport) l) := by
  induction l using List.reverseRecOn with
  | nil =>
    refine ⟨rfl, rfl, fun _ => ?_⟩
    funext k
    simp [image, zeroReport, listOf, recorded, byteOf]
  | append_singleton l r ih =>
    obtain ⟨hcount, hindex, hcells⟩ := ih
    rw [map_append, map_singleton, listOf_append,
      show recorded (fun _ => zeroReport) (l ++ [r]) =
        (recorded (fun _ => zeroReport) l).push r by simp [recorded, foldl_append]]
    refine ⟨congrArg (· + 1) hcount, ?_, fun i => ?_⟩
    · show ((listOf (l.map image)).writeIndex + 1) % 10 = _
      rw [hindex, Listings.ReportList.push, Fin.val_add]
      rfl
    · by_cases hi : i = (recorded (fun _ => zeroReport) l).writeIndex
      · simp [Listings.ReportList.push, hindex, hi]
      · have hne : i.val ≠ (listOf (l.map image)).writeIndex := fun he =>
          hi (Fin.ext (he.trans hindex))
        simp [Listings.ReportList.push, hi, put_of_ne hne, hcells]

/-- With zeroed structures myrep and sysrep return the same count and the same entries. -/
def Agree (s : State) (list : Listings.ReportList) (pid : UInt32) : Prop :=
  ∃ out b, sysMyrep list pid { count := 0, reports := fun _ => zeroReport } = .ok out ∧
    sysrep s (fun _ => 0) = some b ∧ rtCount b = out.count ∧
    out.count.toInt ≤ REPORT_BUFFER_SIZE ∧
    ∀ i : Fin Listings.REPORT_BUFFER_SIZE, i.val < out.count.toInt → ∀ k < REPORT,
      b (i.val * REPORT + k) = image (out.reports i) k

theorem Agree.short {s : State} {l : List Bytes} (h : Reported s l) (hne : l ≠ [])
    {list : Listings.ReportList} {pid : UInt32} (hagree : Agree s list pid) :
    l.length ≤ REPORT_BUFFER_SIZE := by
  obtain ⟨b, hb, hcount, _⟩ := h.sysrep hne fun _ => 0
  obtain ⟨out, b', _, hb', hsame, hle, _⟩ := hagree
  obtain rfl := Option.some.inj (hb.symm.trans hb')
  rw [← hsame, hcount] at hle
  exact_mod_cast hle

/-- **myrep and sysrep agree** on the reports below a process up to the tenth. -/
theorem myrep_sysrep_iff {s : State} {l : List Report} (h : Stores s (l.map image)) (hne : l ≠ [])
    {pid : UInt32} (hnames : ∀ r ∈ l, r.names pid) :
    ∃ list, Mirrors s.list list ∧ (Agree s list pid ↔ l.length ≤ REPORT_BUFFER_SIZE) := by
  have hrep := h.reported
  have hlt := hrep.holds.lt
  obtain ⟨b, hb, hcount, hread⟩ := hrep.sysrep (by simpa using hne) fun _ => 0
  rw [List.length_map] at hlt hcount
  refine ⟨recorded (fun _ => zeroReport) l, hrep.list ▸ mirrors_recorded l, fun hagree => ?_,
    fun hle => ?_⟩
  · simpa using hagree.short hrep (by simpa using hne)
  · have hten : l.length ≤ 10 := hle
    have hcrash := Listings.crashes_recorded (fun _ => zeroReport) (l := l) (by omega) pid
    rw [Nat.sub_eq_zero_of_le hten, List.drop_zero,
      List.filter_eq_self.mpr fun r hr => decide_eq_true (hnames r hr)] at hcrash
    have hfits : Listings.Fits { count := 0, reports := fun _ => zeroReport } l :=
      Or.inr ⟨le_rfl, show (0 : Int) + l.length ≤ 10 by omega⟩
    have hout := Listings.appended_count hfits
    have hmyrep := Listings.myrep_eq (hcrash ▸ hfits)
    rw [hcrash] at hmyrep
    refine ⟨_, b, hmyrep, hb, Int32.toInt_inj.mp ?_, ?_, fun i hi k hk => ?_⟩
    · rw [hcount, hout]
      simp
    · rw [hout]
      simpa using hle
    · rw [hout] at hi
      have hil : i.val < l.length := by simpa using hi
      rw [Listings.appended_newer (by simp) (by simpa using hil)]
      have hj := hread i.val (by rw [List.length_map]; omega) k hk
      simpa [Nat.min_eq_left hten] using hj

end Myrep

/-! ## §5. Eleven crashes, and a full disk. -/

theorem Stores.calls {s s' : State} {l : List Bytes} {p : Slot} (h : Stores s l) (rs : List Bytes)
    (hrun : runActs (stepIf step Orderly) s (rs.flatMap (storeTrapActs p)) = some s') :
    Stores s' (l ++ rs) := by
  induction rs generalizing s l with
  | nil =>
    cases hrun
    rwa [append_nil]
  | cons r rs ih =>
    rw [flatMap_cons, runActs_append, Option.bind_eq_some_iff] at hrun
    obtain ⟨t, hcall, hrest⟩ := hrun
    rw [← singleton_append, ← append_assoc]
    exact ih (h.store hcall) hrest

theorem exists_stores (rs : List Bytes) (h : (runActs (stepIf step Orderly) emptyDisk
    (rs.flatMap (storeTrapActs 1))).isSome = true) : ∃ s, Stores s rs := by
  obtain ⟨s, hs⟩ := Option.isSome_iff_exists.mp h
  exact ⟨s, Stores.calls (.start ⟨100, rfl⟩) rs hs⟩

/-- The second report comes back as the second entry. -/
theorem sysrep_reads_back_two : ∃ s out, Stores s [fun _ => 7, fun _ => 9] ∧
    sysrep s (fun _ => 0) = some out ∧ out (1 * REPORT + 0) = 9 := by
  obtain ⟨s, hs⟩ := exists_stores [fun _ => 7, fun _ => 9] (by decide +kernel)
  obtain ⟨out, hout, hread⟩ := sysrep_reads_back hs (by simp) fun _ => 0
  exact ⟨s, out, hs, hout, hread 1 (by decide) 0 (by decide)⟩

/-- **A full disk.** Only the first bytes of the fourth report reach the file; store_trap does not
look at what kfilewrite returns. -/
theorem sysrep_cut_off : ∃ s out,
    runActs step (State.boot { emptyDisk.data with free := 1 })
      ((List.replicate 4 fun _ => 7).flatMap (storeTrapActs 1)) = some s ∧ Quiet s ∧
    sysrep s (fun _ => 0) = some out ∧ rtCount out = 4 ∧ out (3 * REPORT + 200) ≠ 7 := by
  have hacts : (runActs step (State.boot { emptyDisk.data with free := 1 })
      ((List.replicate 4 fun _ => 7).flatMap (storeTrapActs 1))).any (fun s => Quiet s ∧
        (sysrep s fun _ => 0).any (fun out => rtCount out = 4 ∧ out (3 * REPORT + 200) ≠ 7) =
          true) = true := by decide +kernel
  obtain ⟨s, hs, htest⟩ := (Option.any_eq_true _ _).mp hacts
  obtain ⟨hquiet, hread⟩ := of_decide_eq_true htest
  obtain ⟨out, hout, htest⟩ := (Option.any_eq_true _ _).mp hread
  exact ⟨s, out, hs, hquiet, hout, of_decide_eq_true htest⟩

/-- The first crash of a child. -/
theorem myrep_sysrep_one : ∃ s list, Stores s [image Listings.childReport] ∧
    Mirrors s.list list ∧ Agree s list 1 := by
  obtain ⟨s, hs⟩ := exists_stores [image Listings.childReport] (by decide +kernel)
  have hnames : ∀ r ∈ [Listings.childReport], r.names 1 := by decide
  obtain ⟨list, hlist, hiff⟩ := myrep_sysrep_iff hs (by simp) hnames
  exact ⟨s, list, hs, hlist, hiff.mpr (by decide)⟩

/-- **Eleven crashes.**  The count of sysrep is behind the end of the array. -/
theorem sysrep_counts_eleven : ∃ s b,
    Stores s ((List.replicate 11 Listings.childReport).map image) ∧
      sysrep s (fun _ => 0) = some b ∧ (rtCount b).toInt = 11 ∧ ∀ list pid, ¬ Agree s list pid := by
  obtain ⟨s, hs⟩ := exists_stores ((List.replicate 11 Listings.childReport).map image)
    (by decide +kernel)
  obtain ⟨b, hb, hcount, _⟩ := hs.reported.sysrep (by simp) fun _ => 0
  refine ⟨s, b, hs, hb, by simpa using hcount, fun list pid hagree => ?_⟩
  exact absurd (hagree.short hs.reported (by simp)) (by decide)

end Xv6.ReportFile
