/-
  Xv6.FileData.SharedFile — filewrite through a shared `struct file`.

  filewrite goes chunk by chunk: the inode is locked, `f->off` read, the blocks copied one
  after the other, the size and `f->off` updated, and the inode unlocked.  `history` is a
  ghost: the chunks in the order of their writing.
-/
import Xv6.FileData.Data
import Xv6.Fs.Files
import Xv6.Lib.Count
import Xv6.Lib.Run

namespace Xv6.SharedFile

open Lib Fs FileData

/-! ## §1. The machine. -/

/-- `max` of filewrite: ((MAXOPBLOCKS-1-1-2) / 2) * BSIZE. -/
def chunkMax : Nat := (10 - 1 - 1 - 2) / 2 * BSIZE

/-- A call of `filewrite(f, addr, n)`; `src` is the memory from `addr` on. -/
structure Call where
  file : Fin NFILE
  src : Nat → Option UInt8
  n : Nat

def Call.chunk (c : Call) (i : Nat) : Nat := min (c.n - i) chunkMax

def Call.source (c : Call) (i : Nat) : Nat → Option UInt8 := fun k => c.src (i + k)

/-- Ghost: a chunk that has been written, from offset `off` on. -/
structure Chunk where
  file : Fin NFILE
  turn : Nat
  off : Nat
  len : Nat
  bytes : Bytes
  i : Nat

/-- Where a process is.  `own` are the chunks of the current call. -/
inductive Pc where
  | idle
  | head (c : Call) (own : List Chunk) (i : Nat)
  | waiting (c : Call) (own : List Chunk) (i : Nat)
  /-- In the loop of writei, which started at `off`. -/
  | copying (c : Call) (own : List Chunk) (i off tot : Nat)
  | copied (c : Call) (own : List Chunk) (i : Nat) (r : Int)
  | advanced (c : Call) (own : List Chunk) (i : Nat) (r : Int)
  /-- fileread, before `ilock`, with the inode locked, and after readi. -/
  | reading (f : Fin NFILE) (n : Nat)
  | readLocked (f : Fin NFILE) (n : Nat)
  | readDone

structure Result where
  call : Call
  ret : Int
  own : List Chunk

structure State where
  data : Data
  off : Fin NFILE → Nat
  lock : Option Slot
  pc : Slot → Pc
  turn : Nat
  history : List Chunk
  results : List Result

inductive Act where
  | filewrite (p : Slot) (c : Call)
  | test (p : Slot)
  | ilock (p : Slot)
  /-- One turn of the loop of writei, or its end. -/
  | copy (p : Slot)
  | advance (p : Slot)
  | iunlock (p : Slot)
  | fileread (p : Slot) (f : Fin NFILE) (n : Nat)
  | readi (p : Slot) (ok : Bool)
  /-- Others take or give back blocks of the disk. -/
  | blocks (free : Nat)

def Act.proc : Act → Option Slot
  | .filewrite p _ | .test p | .ilock p | .copy p | .advance p | .iunlock p | .fileread p _ _
  | .readi p _ => some p
  | .blocks _ => none

namespace State

def goto (s : State) (p : Slot) (pc : Pc) : State := { s with pc := Function.update s.pc p pc }

def locked (s : State) (p : Slot) (pc : Pc) : State :=
  { s.goto p pc with lock := some p, turn := s.turn + 1 }

def unlocked (s : State) (p : Slot) (pc : Pc) : State := { s.goto p pc with lock := none }

def finish (s : State) (p : Slot) (c : Call) (own : List Chunk) (ret : Int) : State :=
  { s.goto p .idle with results := s.results ++ [{ call := c, ret := ret, own := own }] }

def chunkOf (s : State) (c : Call) (i len : Nat) : Chunk :=
  { file := c.file, turn := s.turn, off := s.off c.file, len := len, bytes := bytesAt (c.source i)
    i := i }

def advanced (s : State) (p : Slot) (c : Call) (own : List Chunk) (i : Nat) (r : Int) : State :=
  if 0 < r then
    { s.goto p (.advanced c (own ++ [s.chunkOf c i r.toNat]) i r) with
      off := put s.off c.file (s.off c.file + r.toNat)
      history := s.history ++ [s.chunkOf c i r.toNat] }
  else s.goto p (.advanced c own i r)

def readLength (s : State) (f : Fin NFILE) (n : Nat) : Nat :=
  if s.data.size < s.off f then 0 else min n (s.data.size - s.off f)

def advance (s : State) (p : Slot) : Act → Pc → Option State
  | .filewrite _ c, .idle => some (s.goto p (.head c [] 0))
  | .test _, .head c own i =>
    if i < c.n then some (s.goto p (.waiting c own i))
    else some (s.finish p c own (if i = c.n then c.n else -1))
  | .ilock _, .waiting c own i =>
    if s.lock = none then
      if writable s.data (s.off c.file) (c.chunk i) then
        some (s.locked p (.copying c own i (s.off c.file) 0))
      else some (s.locked p (.copied c own i (-1)))
    else none
  | .copy _, .copying c own i off tot =>
    if tot < c.chunk i then
      match FileData.turn s.data (c.source i) (off + tot) tot (c.chunk i) with
      | (d, some m) => some { s.goto p (.copying c own i off (tot + m)) with data := d }
      | (d, none) =>
        some { s.goto p (.copied c own i tot) with data := grown d (off + tot) }
    else some { s.goto p (.copied c own i tot) with data := grown s.data (off + tot) }
  | .advance _, .copied c own i r => some (s.advanced p c own i r)
  | .iunlock _, .advanced c own i r =>
    if r = c.chunk i then some (s.unlocked p (.head c own (i + r.toNat)))
    else some ((s.unlocked p .idle).finish p c own (-1))
  | .fileread _ f n, .idle => some (s.goto p (.reading f n))
  | .ilock _, .reading f n =>
    if s.lock = none then some (s.locked p (.readLocked f n)) else none
  | .readi _ ok, .readLocked f n =>
    some { s.goto p .readDone with
      off := put s.off f (if ok then s.off f + s.readLength f n else s.off f) }
  | .iunlock _, .readDone => some (s.unlocked p .idle)
  | _, _ => none

end State

def step (s : State) (a : Act) : Option State :=
  match a with
  | .blocks free => some { s with data := { s.data with free := free } }
  | a =>
    match a.proc with
    | some p => s.advance p a (s.pc p)
    | none => none

/-! ## §2. Every step. -/

inductive Move (s : State) (p : Slot) : Act → State → Prop
  | filewrite (c : Call) (hpc : s.pc p = .idle) :
    Move s p (.filewrite p c) (s.goto p (.head c [] 0))
  | again (c : Call) (own : List Chunk) (i : Nat) (hpc : s.pc p = .head c own i) (h : i < c.n) :
    Move s p (.test p) (s.goto p (.waiting c own i))
  | done (c : Call) (own : List Chunk) (i : Nat) (hpc : s.pc p = .head c own i) (h : ¬ i < c.n) :
    Move s p (.test p) (s.finish p c own (if i = c.n then c.n else -1))
  | ilock (c : Call) (own : List Chunk) (i : Nat) (hpc : s.pc p = .waiting c own i)
    (hfree : s.lock = none) (hok : writable s.data (s.off c.file) (c.chunk i) = true) :
    Move s p (.ilock p) (s.locked p (.copying c own i (s.off c.file) 0))
  | refuse (c : Call) (own : List Chunk) (i : Nat) (hpc : s.pc p = .waiting c own i)
    (hfree : s.lock = none) (hno : ¬ writable s.data (s.off c.file) (c.chunk i) = true) :
    Move s p (.ilock p) (s.locked p (.copied c own i (-1)))
  | copy (c : Call) (own : List Chunk) (i off tot : Nat) (d : Data) (m : Nat)
    (hpc : s.pc p = .copying c own i off tot) (htot : tot < c.chunk i)
    (hturn : FileData.turn s.data (c.source i) (off + tot) tot (c.chunk i) = (d, some m)) :
    Move s p (.copy p) { s.goto p (.copying c own i off (tot + m)) with data := d }
  | broken (c : Call) (own : List Chunk) (i off tot : Nat) (d : Data)
    (hpc : s.pc p = .copying c own i off tot) (htot : tot < c.chunk i)
    (hturn : FileData.turn s.data (c.source i) (off + tot) tot (c.chunk i) = (d, none)) :
    Move s p (.copy p) { s.goto p (.copied c own i tot) with data := grown d (off + tot) }
  | copied (c : Call) (own : List Chunk) (i off tot : Nat)
    (hpc : s.pc p = .copying c own i off tot) (htot : ¬ tot < c.chunk i) :
    Move s p (.copy p) { s.goto p (.copied c own i tot) with data := grown s.data (off + tot) }
  | advance (c : Call) (own : List Chunk) (i : Nat) (r : Int) (hpc : s.pc p = .copied c own i r)
    (hr : 0 < r) : Move s p (.advance p) (s.advanced p c own i r)
  | remain (c : Call) (own : List Chunk) (i : Nat) (r : Int) (hpc : s.pc p = .copied c own i r)
    (hr : ¬ 0 < r) : Move s p (.advance p) (s.goto p (.advanced c own i r))
  | iunlock (c : Call) (own : List Chunk) (i : Nat) (r : Int)
    (hpc : s.pc p = .advanced c own i r) (hr : r = c.chunk i) :
    Move s p (.iunlock p) (s.unlocked p (.head c own (i + r.toNat)))
  | fail (c : Call) (own : List Chunk) (i : Nat) (r : Int)
    (hpc : s.pc p = .advanced c own i r) (hr : r ≠ c.chunk i) :
    Move s p (.iunlock p) ((s.unlocked p .idle).finish p c own (-1))
  | fileread (f : Fin NFILE) (n : Nat) (hpc : s.pc p = .idle) :
    Move s p (.fileread p f n) (s.goto p (.reading f n))
  | readLock (f : Fin NFILE) (n : Nat) (hpc : s.pc p = .reading f n) (hfree : s.lock = none) :
    Move s p (.ilock p) (s.locked p (.readLocked f n))
  | readi (f : Fin NFILE) (n : Nat) (ok : Bool) (hpc : s.pc p = .readLocked f n) :
    Move s p (.readi p ok)
      { s.goto p .readDone with
        off := put s.off f (if ok then s.off f + s.readLength f n else s.off f) }
  | readUnlock (hpc : s.pc p = .readDone) : Move s p (.iunlock p) (s.unlocked p .idle)

theorem move_of_advance {s s' : State} {p : Slot} {a : Act} (ha : a.proc = some p)
    (h : s.advance p a (s.pc p) = some s') : Move s p a s' := by
  unfold State.advance at h
  split at h
  case h_1 c hpc =>
    cases ha
    cases h
    exact .filewrite c hpc
  case h_2 c own i hpc =>
    cases ha
    split at h
    case isTrue hlt =>
      cases h
      exact .again c own i hpc hlt
    case isFalse hge =>
      cases h
      exact .done c own i hpc hge
  case h_3 c own i hpc =>
    cases ha
    split at h
    case isTrue hfree =>
      split at h
      case isTrue hok =>
        cases h
        exact .ilock c own i hpc hfree hok
      case isFalse hno =>
        cases h
        exact .refuse c own i hpc hfree hno
    case isFalse => cases h
  case h_4 c own i off tot hpc =>
    cases ha
    split at h
    case isTrue htot =>
      split at h
      case h_1 d m hturn =>
        cases h
        exact .copy c own i off tot d m hpc htot hturn
      case h_2 d hturn =>
        cases h
        exact .broken c own i off tot d hpc htot hturn
    case isFalse htot =>
      cases h
      exact .copied c own i off tot hpc htot
  case h_5 c own i r hpc =>
    cases ha
    cases h
    by_cases hr : 0 < r
    · exact .advance c own i r hpc hr
    · have heq : s.advanced p c own i r = s.goto p (.advanced c own i r) := if_neg hr
      rw [heq]
      exact .remain c own i r hpc hr
  case h_6 c own i r hpc =>
    cases ha
    split at h
    case isTrue hr =>
      cases h
      exact .iunlock c own i r hpc hr
    case isFalse hr =>
      cases h
      exact .fail c own i r hpc hr
  case h_7 f n hpc =>
    cases ha
    cases h
    exact .fileread f n hpc
  case h_8 f n hpc =>
    cases ha
    split at h
    case isTrue hfree =>
      cases h
      exact .readLock f n hpc hfree
    case isFalse => cases h
  case h_9 ok f n hpc =>
    cases ha
    cases h
    exact .readi f n ok hpc
  case h_10 hpc =>
    cases ha
    cases h
    exact .readUnlock hpc
  case h_11 => cases h

theorem move_of_step {s s' : State} {a : Act} (h : step s a = some s') :
    (∃ free, a = .blocks free ∧ s' = { s with data := { s.data with free := free } }) ∨
      ∃ p, Move s p a s' := by
  cases ha : a.proc with
  | none =>
    cases a with
    | blocks free =>
      left
      cases h
      exact ⟨free, rfl, rfl⟩
    | _ => cases ha
  | some p =>
    right
    refine ⟨p, move_of_advance ha ?_⟩
    cases a with
    | blocks free => cases ha
    | _ => cases ha; exact h

structure Quiet (s : State) : Prop where
  idle : ∀ p, s.pc p = .idle
  unlocked : s.lock = none

/-- Sources are mapped, there is room, and `f` is not read from. -/
def Plenty (f : Fin NFILE) (s : State) : Act → Prop
  | .filewrite _ c => Readable c.src c.n
  | .ilock p =>
    match s.pc p with
    | .waiting c _ i => s.off c.file + c.chunk i ≤ MAXFILE * BSIZE
    | _ => True
  | .copy _ => 2 ≤ s.data.free
  | .fileread _ g _ => g ≠ f
  | _ => True

def WriteRun (f : Fin NFILE) (init : State) : State → Prop :=
  Reachable (· = init) fun s s' => ∃ a, step s a = some s' ∧ Plenty f s a

end Xv6.SharedFile
