/-
  Xv6.FileData.FailedWrite — a write that meets a bad address.

  writei copies into a buffer and logs it afterwards.  When either_copyin fails it may have
  copied a part: the buffer is released with that part in it, and readi finds it there until
  the buffer is recycled.
-/
import Xv6.FileData.Data

namespace Xv6.FailedWrite

open Lib Fs FileData Function

/-! ## §1. writei over the buffer cache. -/

structure State where
  /-- The file, with the bytes that are in the buffers. -/
  data : Data
  disk : Bytes
  /-- The blocks of the file that have a buffer. -/
  resident : Nat → Bool
  /-- The blocks that are in the log and pinned. -/
  logged : Nat → Bool

namespace State

def seen (s : State) (x : Nat) : UInt8 :=
  if s.resident (x / BSIZE) then s.data.bytes x else s.disk x

def bread (s : State) (bn : Nat) : State :=
  { s with
    data := { s.data with bytes := fun x => if x / BSIZE = bn then s.seen x else s.data.bytes x }
    resident := update s.resident bn true }

/-- The first `k` bytes of a copyin, or all of it. -/
def copy (s : State) (off k : Nat) (src : Bytes) : State :=
  { s with data := { s.data with bytes := overlay s.data.bytes off k src } }

def logWrite (s : State) (bn : Nat) : State :=
  { s with logged := update s.logged bn true }

end State

inductive Stop where
  | done | noBlock | badAddress
  deriving DecidableEq

def turn (s : State) (src : Nat → Option UInt8) (off tot n : Nat) : State × Except Stop Nat :=
  match bmap s.data (off / BSIZE) with
  | (d, false) => ({ s with data := d }, .error .noBlock)
  | (d, true) =>
    let m := turnLength off tot n
    let k := readable src tot m
    let s := (State.bread { s with data := d } (off / BSIZE)).copy off k fun i =>
      bytesAt src (tot + i)
    if k = m then (s.logWrite (off / BSIZE), .ok m) else (s, .error .badAddress)

/-- `tot` and `off` at the end of the loop. -/
structure Ended where
  state : State
  tot : Nat
  off : Nat
  stop : Stop

def writeiLoop (src : Nat → Option UInt8) (n : Nat) : Nat → State → Nat → Nat → Ended
  | 0, s, tot, off => ⟨s, tot, off, .done⟩
  | fuel + 1, s, tot, off =>
    if tot < n then
      match turn s src off tot n with
      | (s, .error stop) => ⟨s, tot, off, stop⟩
      | (s, .ok m) => writeiLoop src n fuel s (tot + m) (off + m)
    else ⟨s, tot, off, .done⟩

/-- `none` is -1. -/
def writei (s : State) (src : Nat → Option UInt8) (off n : Nat) : Option Ended :=
  if writable s.data off n then
    let r := writeiLoop src n n s 0 off
    some { r with state := { r.state with data := grown r.state.data r.off } }
  else none

/-- The states after `s`: blocks are read, buffers without a pin recycled, and the
log committed. -/
inductive Later (s : State) : State → Prop
  | now : Later s s
  | bread {t : State} (h : Later s t) (bn : Nat) : Later s (t.bread bn)
  | recycle {t : State} (h : Later s t) (bn : Nat) (hpin : t.logged bn = false) :
    Later s { t with resident := update t.resident bn false }
  | commit {t : State} (h : Later s t) :
    Later s { t with
      disk := fun x => if t.logged (x / BSIZE) then t.data.bytes x else t.disk x
      logged := fun _ => false }

/-! ## §2. Bytes that stay. -/

/-- Byte `x` is `v`, with or without its buffer. -/
structure Reads (s : State) (x : Nat) (v : UInt8) : Prop where
  buffer : s.resident (x / BSIZE) = true → s.data.bytes x = v
  disk : s.logged (x / BSIZE) = false → s.disk x = v
  pinned : s.logged (x / BSIZE) = true → s.resident (x / BSIZE) = true

/-- A buffer that is not in the log holds what is on the disk; one that is stays. -/
def Clean (s : State) : Prop := ∀ x, Reads s x (s.seen x)

section Bytes

variable {s t : State} {x : Nat} {v : UInt8} {src : Nat → Option UInt8} {off tot n : Nat}

theorem Reads.seen_eq (h : Reads s x v) : s.seen x = v := by
  unfold State.seen
  split
  · next hres => exact h.buffer hres
  · next hres =>
    apply h.disk
    rw [Bool.eq_false_iff]
    exact fun hlog => hres (h.pinned hlog)

theorem Reads.bread (h : Reads s x v) (bn : Nat) : Reads (s.bread bn) x v := by
  by_cases hx : x / BSIZE = bn
  · refine ⟨fun _ => ?_, h.disk, fun _ => ?_⟩
    · exact (if_pos hx).trans h.seen_eq
    · simp [State.bread, hx]
  · have hres : (s.bread bn).resident (x / BSIZE) = s.resident (x / BSIZE) := update_of_ne hx _ _
    exact ⟨fun hr => (if_neg hx).trans (h.buffer (hres ▸ hr)), h.disk,
      fun hlog => hres.trans (h.pinned hlog)⟩

theorem Reads.copy (h : Reads s x v) {k : Nat} {src : Bytes}
    (hx : ∀ i < k, x = off + i → src i = v) : Reads (s.copy off k src) x v := by
  refine ⟨fun hres => ?_, h.disk, h.pinned⟩
  show overlay s.data.bytes off k src x = v
  by_cases hin : off ≤ x ∧ x < off + k
  · obtain ⟨i, rfl⟩ := Nat.exists_eq_add_of_le hin.1
    rw [overlay_add _ _ (by omega)]
    exact hx i (by omega) rfl
  · rw [overlay_of_notMem _ _ (by omega)]
    exact h.buffer hres

theorem Reads.logWrite (h : Reads s x v) {bn : Nat} (hres : s.resident bn = true) :
    Reads (s.logWrite bn) x v := by
  by_cases hx : x / BSIZE = bn
  · refine ⟨h.buffer, fun hlog => ?_, fun _ => hx ▸ hres⟩
    simp [State.logWrite, hx] at hlog
  · have hlog : (s.logWrite bn).logged (x / BSIZE) = s.logged (x / BSIZE) := update_of_ne hx _ _
    exact ⟨h.buffer, fun hl => h.disk (hlog ▸ hl), fun hl => h.pinned (hlog ▸ hl)⟩

theorem Reads.later (h : Later s t) (hr : Reads s x v) : Reads t x v := by
  induction h with
  | now => exact hr
  | bread _ bn ih => exact ih.bread bn
  | @recycle t _ bn hpin ih =>
    by_cases hx : x / BSIZE = bn
    · have hlog : t.logged (x / BSIZE) = false := hx ▸ hpin
      refine ⟨fun hres => ?_, ih.disk, fun hlog' => ?_⟩
      · simp [hx] at hres
      · cases hlog.symm.trans hlog'
    · have hres : update t.resident bn false (x / BSIZE) = t.resident (x / BSIZE) :=
        update_of_ne hx _ _
      exact ⟨fun h => ih.buffer (hres ▸ h), ih.disk, fun h => hres.trans (ih.pinned h)⟩
  | @commit t _ ih =>
    refine ⟨ih.buffer, fun _ => ?_, fun h => by cases h⟩
    dsimp only
    split
    · next hlog => exact ih.buffer (ih.pinned hlog)
    · next hlog => exact ih.disk (by simpa using hlog)

/-! ## §3. The loop. -/

theorem bmap_same (d : Data) (bn : Nat) :
    (bmap d bn).1.bytes = d.bytes ∧ (bmap d bn).1.size = d.size := by
  unfold FileData.bmap obtain
  split_ifs <;> exact ⟨rfl, rfl⟩

theorem readable_le (src : Nat → Option UInt8) (start m : Nat) : readable src start m ≤ m := by
  induction m generalizing start with
  | zero => exact le_rfl
  | succ m ih =>
    have hrest := ih (start + 1)
    unfold readable
    split <;> omega

inductive Turned (s : State) (src : Nat → Option UInt8) (off tot n : Nat) :
    State × Except Stop Nat → Prop
  | noBlock {d : Data} (hsize : d.size = s.data.size)
    (hsame : ∀ x v, Reads s x v → Reads { s with data := d } x v) :
    Turned s src off tot n ({ s with data := d }, .error .noBlock)
  | copied {t : State} {res : Except Stop Nat} (hsize : t.data.size = s.data.size)
    (hres : res = .ok (readable src tot (turnLength off tot n)) ∨ res = .error .badAddress)
    (hseen : ∀ i < readable src tot (turnLength off tot n),
      t.seen (off + i) = bytesAt src (tot + i))
    (hkeep : ∀ x v, Reads s x v → (∀ i < readable src tot (turnLength off tot n), x = off + i →
      bytesAt src (tot + i) = v) → Reads t x v) : Turned s src off tot n (t, res)

theorem turned (s : State) (src : Nat → Option UInt8) (off tot n : Nat) :
    Turned s src off tot n (turn s src off tot n) := by
  obtain ⟨hbytes, hsize⟩ := bmap_same s.data (off / BSIZE)
  have hsame : ∀ x v, Reads s x v → Reads { s with data := (bmap s.data (off / BSIZE)).1 } x v :=
    fun x v h => ⟨fun hr => (congrFun hbytes x).trans (h.buffer hr), h.disk, h.pinned⟩
  have hle := readable_le src tot (turnLength off tot n)
  have hm : turnLength off tot n ≤ 1024 - off % 1024 := Nat.min_le_right _ _
  unfold turn
  split
  · next d hd =>
    rw [hd] at hsize hsame
    exact .noBlock hsize hsame
  · next d hd =>
    rw [hd] at hsize hsame
    obtain ⟨k, hk⟩ : ∃ k, k = readable src tot (turnLength off tot n) := ⟨_, rfl⟩
    obtain ⟨t, ht⟩ : ∃ t, t = (State.bread { s with data := d } (off / BSIZE)).copy off k fun i =>
      bytesAt src (tot + i) := ⟨_, rfl⟩
    have hres : t.resident (off / BSIZE) = true := by simp [ht, State.copy, State.bread]
    have hseen : ∀ i < k, t.seen (off + i) = bytesAt src (tot + i) := by
      intro i hi
      have hblock : (off + i) / BSIZE = off / BSIZE := by
        show (off + i) / 1024 = off / 1024
        omega
      unfold State.seen
      rw [hblock, if_pos hres, ht]
      exact overlay_add _ (fun i => bytesAt src (tot + i)) hi
    have hkeep : ∀ x v, Reads s x v → (∀ i < k, x = off + i → bytesAt src (tot + i) = v) →
        Reads t x v := fun x v h hx => ht ▸ ((hsame x v h).bread _).copy hx
    dsimp only
    rw [← hk, ← ht]
    have hsize' : t.data.size = s.data.size := ht ▸ hsize
    split
    · next hok =>
      exact .copied hsize' (.inl (congrArg _ (hok.symm.trans hk))) (hk ▸ hseen) fun x v h hx =>
        (hkeep x v h (hk ▸ hx)).logWrite hres
    · exact .copied hsize' (.inr rfl) (hk ▸ hseen) fun x v h hx => hkeep x v h (hk ▸ hx)

/-- The part of the failed turn is in the buffer, and every other byte not counted stays. -/
theorem writeiLoop_spec (fuel : Nat) (s : State) (tot off : Nat) {r : Ended}
    (hr : writeiLoop src n fuel s tot off = r) :
    r.state.data.size = s.data.size ∧ tot ≤ r.tot ∧ r.off + tot = off + r.tot ∧
      (r.stop = .badAddress → (∀ i < readable src r.tot (turnLength r.off r.tot n),
        r.state.seen (r.off + i) = bytesAt src (r.tot + i)) ∧
      ∀ x v, Reads s x v → (x < off ∨ r.off ≤ x) →
        (∀ i < readable src r.tot (turnLength r.off r.tot n), x = r.off + i →
          bytesAt src (r.tot + i) = v) → Reads r.state x v) := by
  induction fuel generalizing s tot off with
  | zero =>
    subst hr
    exact ⟨rfl, le_rfl, rfl, fun h => by cases h⟩
  | succ fuel ih =>
    unfold writeiLoop at hr
    split at hr
    · have hturn := turned s src off tot n
      split at hr
      · next t stop he =>
        rw [he] at hturn
        subst hr
        cases hturn with
        | noBlock hsize => exact ⟨hsize, le_rfl, rfl, fun h => by cases h⟩
        | copied hsize _ hseen hkeep =>
          exact ⟨hsize, le_rfl, rfl, fun _ => ⟨hseen, fun x v h _ => hkeep x v h⟩⟩
      · next t m he =>
        rw [he] at hturn
        obtain ⟨hsize', hle, heq, hrest⟩ := ih t (tot + m) (off + m) hr
        cases hturn with
        | copied hsize hres _ hkeep =>
          obtain rfl : m = _ := Except.ok.inj (hres.resolve_right (by simp))
          refine ⟨hsize'.trans hsize, by omega, by omega, fun hstop => ⟨(hrest hstop).1, ?_⟩⟩
          intro x v h hout
          exact (hrest hstop).2 x v (hkeep x v h fun i hi hxi => by omega) (by omega)
    · subst hr
      exact ⟨rfl, le_rfl, rfl, fun h => by cases h⟩

end Bytes

/-! ## §4. A write that is cut off. -/

/-- What the failing copyin has copied: up to the first bad byte, or to the end of the block. -/
def stray (src : Nat → Option UInt8) (off tot n : Nat) : Nat :=
  readable src tot (turnLength (off + tot) tot n)

def zeros : State where
  data := { bytes := fun _ => 0, size := 1100, mapped := 2, indirect := false, free := 0 }
  disk := fun _ => 0
  resident := fun _ => false
  logged := fun _ => false

def sevens (k i : Nat) : Option UInt8 := if i < k then some 7 else none

theorem clean_zeros : Clean zeros := fun _ =>
  ⟨fun h => (by cases h), fun _ => rfl, fun h => (by cases h)⟩

end Xv6.FailedWrite
