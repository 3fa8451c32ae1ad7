/-
  Xv6.Log.Defs — the in-memory log of log.c and its entry points.

  Each function is the body of one critical section of `log.lock`.  The array
  `lh.block[0..n)` is a list, so `lh.n` is its length.
-/
import Mathlib

namespace Xv6.LogLayer

/-! ## §1. `struct log`. -/

abbrev MAXOPBLOCKS : Nat := 10

abbrev LOGSIZE : Nat := MAXOPBLOCKS * 3

/-- `log.lh`, `log.outstanding` and `log.committing`, with the position of the
log on disk. -/
structure Log where
  start : Nat
  size : Nat
  outstanding : Int
  committing : Bool
  lh : List Nat
  deriving DecidableEq

inductive Panic where
  | tooBigATransaction
  | logWriteOutsideOfTrans
  | logCommitting
  deriving DecidableEq

def initlog (logstart nlog : Nat) : Log :=
  { start := logstart, size := nlog, outstanding := 0, committing := false, lh := [] }

/-! ## §2. The critical sections of `log.lock`. -/

def beginOp (log : Log) : Option Log :=
  if log.committing then none
  else if (log.lh.length : Int) + (log.outstanding + 1) * MAXOPBLOCKS > LOGSIZE then
    -- this op might exhaust log space; wait for commit
    none
  else some { log with outstanding := log.outstanding + 1 }

/-- `log_write` for a buffer that holds `blockno`; the flag says whether the
buffer gets pinned. -/
def logWrite (log : Log) (blockno : Nat) : Except Panic (Log × Bool) :=
  if log.lh.length ≥ LOGSIZE ∨ (log.lh.length : Int) ≥ (log.size : Int) - 1 then
    .error .tooBigATransaction
  else if log.outstanding < 1 then .error .logWriteOutsideOfTrans
  else if blockno ∈ log.lh then
    -- log absorption
    .ok (log, false)
  else .ok ({ log with lh := log.lh ++ [blockno] }, true)

def endOp (log : Log) : Except Panic (Log × Bool) :=
  let log := { log with outstanding := log.outstanding - 1 }
  if log.committing then .error .logCommitting
  else if log.outstanding = 0 then .ok ({ log with committing := true }, true)
  else .ok (log, false)

def endCommit (log : Log) : Log := { log with committing := false }

variable {log log' : Log}

theorem beginOp_eq_some (h : beginOp log = some log') : log.committing = false ∧
      (log.lh.length : Int) + (log.outstanding + 1) * MAXOPBLOCKS ≤ LOGSIZE ∧
      log' = { log with outstanding := log.outstanding + 1 } := by
  unfold beginOp at h
  split at h
  · exact absurd h (by simp)
  · next hc =>
    split at h
    · exact absurd h (by simp)
    · next hn => exact ⟨by simpa using hc, by omega, (Option.some.inj h).symm⟩

theorem logWrite_eq_ok {b : Nat} {pin : Bool} (h : logWrite log b = .ok (log', pin)) :
    log.lh.length < LOGSIZE ∧ log.lh.length + 1 < log.size ∧ 1 ≤ log.outstanding ∧
      ((b ∈ log.lh ∧ pin = false ∧ log' = log) ∨
        (b ∉ log.lh ∧ pin = true ∧ log' = { log with lh := log.lh ++ [b] })) := by
  unfold logWrite at h
  split at h
  · exact absurd h (by simp)
  · next hsize =>
    split at h
    · exact absurd h (by simp)
    · next hout =>
      refine ⟨by omega, by omega, by omega, ?_⟩
      split at h
      · next hmem =>
        obtain ⟨rfl, rfl⟩ := Prod.mk.inj (Except.ok.inj h)
        exact .inl ⟨hmem, rfl, rfl⟩
      · next hmem =>
        obtain ⟨rfl, rfl⟩ := Prod.mk.inj (Except.ok.inj h)
        exact .inr ⟨hmem, rfl, rfl⟩

theorem endOp_eq_ok {doCommit : Bool} (h : endOp log = .ok (log', doCommit)) :
    log.committing = false ∧ ((log.outstanding = 1 ∧ doCommit = true ∧
          log' = { log with outstanding := 0, committing := true }) ∨
        (log.outstanding ≠ 1 ∧ doCommit = false ∧
          log' = { log with outstanding := log.outstanding - 1 })) := by
  unfold endOp at h
  dsimp only at h
  split at h
  · exact absurd h (by simp)
  · next hc =>
    refine ⟨by simpa using hc, ?_⟩
    split at h
    · next hout =>
      obtain ⟨rfl, rfl⟩ := Prod.mk.inj (Except.ok.inj h)
      exact .inl ⟨by omega, rfl, by simp [hout]⟩
    · next hout =>
      obtain ⟨rfl, rfl⟩ := Prod.mk.inj (Except.ok.inj h)
      exact .inr ⟨by omega, rfl, rfl⟩

/-! ## §3. The header block. -/

abbrev Block := Nat → Nat

/-- The words behind the entries keep what the buffer held. -/
def writeHead (lh : List Nat) (hb : Block) : Block := fun w =>
  if w = 0 then lh.length else (lh[w - 1]?).getD (hb w)

/-- `read_head`: the `n` block numbers of a header block. -/
def readHead (hb : Block) : List Nat := (List.range (hb 0)).map fun i => hb (i + 1)

@[simp] theorem length_readHead (hb : Block) : (readHead hb).length = hb 0 := by
  simp [readHead]

@[simp] theorem readHead_writeHead (lh : List Nat) (hb : Block) :
    readHead (writeHead lh hb) = lh := by
  apply List.ext_getElem
  · simp [writeHead]
  · intro i h1 h2
    simp [readHead, writeHead, h2]

end Xv6.LogLayer
