/-
  Xv6.Log.Machine — operations, commits, crashes and recoveries.

  A step writes at most one disk block, so that `Step.crash` cuts after each of them.  Ghost
  fields record the writes of the open transaction (`txn`), of the commit in progress
  (`inflight`) and of the commits since the last recovery (`commits`).
-/
import Xv6.Log.Defs
import Xv6.Lib.Run
import Xv6.Lib.RedoLog

namespace Xv6.LogLayer

open Lib Function

/-! ## §1. The state. -/

inductive Pc where
  | recReadHead
  | recInstall (tail : Nat)
  /-- Before the `write_head` that clears the log. -/
  | recWriteHead
  | recovered
  | idle
  | commit
  | writeLog (tail : Nat)
  /-- Before the `write_head` that commits. -/
  | writeHead
  | install (tail : Nat)
  /-- Before the `write_head` that erases the transaction. -/
  | eraseHead
  /-- `commit()` has returned, `log.committing` is still set. -/
  | commitDone
  deriving DecidableEq

structure Write where
  op : Nat
  blockno : Nat
  data : Block

def Write.entry (w : Write) : Nat × Block := (w.blockno, w.data)

def replayTxns (txns : List (List Write)) (d : Nat → Block) : Nat → Block :=
  replay (txns.flatten.map Write.entry) d

structure Machine where
  disk : Nat → Block
  cache : Nat → Option Block
  pins : Nat → Nat
  log : Log
  pc : Pc
  /-- Operations between `begin_op` and `end_op`. -/
  active : List Nat
  nextOp : Nat
  /-- Operations that have reached `end_op`. -/
  ended : List Nat
  txn : List Write
  inflight : Option (List Write)
  commits : List (List Write)
  base : Nat → Block

namespace Machine

/-- A block outside the log. -/
def Home (m : Machine) (b : Nat) : Prop := b < m.log.start ∨ m.log.start + m.log.size ≤ b

instance (m : Machine) (b : Nat) : Decidable (m.Home b) := inferInstanceAs (Decidable (_ ∨ _))

def bread (m : Machine) (b : Nat) : Block := (m.cache b).getD (m.disk b)

def fill (m : Machine) (b : Nat) : Machine :=
  { m with cache := update m.cache b (some (m.bread b)) }

def bwrite (m : Machine) (b : Nat) (v : Block) : Machine :=
  { m with disk := update m.disk b v, cache := update m.cache b (some v) }

def bunpin (m : Machine) (b : Nat) : Machine :=
  { m with pins := update m.pins b (m.pins b - 1) }

def logBlock (m : Machine) (tail : Nat) : Nat := m.log.start + tail + 1

/-! ## §2. The thread that writes to the disk. -/

def writeLogEntry (m : Machine) (tail blockno : Nat) : Machine :=
  { (m.fill blockno).bwrite (m.logBlock tail) (m.bread blockno) with pc := .writeLog (tail + 1) }

def installEntry (m : Machine) (tail blockno : Nat) : Machine :=
  (m.fill (m.logBlock tail)).bwrite blockno (m.bread (m.logBlock tail))

def putHead (m : Machine) : Machine :=
  m.bwrite m.log.start (LogLayer.writeHead m.log.lh (m.bread m.log.start))

def clearHead (m : Machine) : Machine := { m with log := { m.log with lh := [] } }

def advance (m : Machine) : Option Machine :=
  match m.pc with
  | .recReadHead =>
    some { m.fill m.log.start with
      log := { m.log with lh := readHead (m.bread m.log.start) }, pc := .recInstall 0 }
  | .recInstall tail =>
    match m.log.lh[tail]? with
    | some blockno => some { m.installEntry tail blockno with pc := .recInstall (tail + 1) }
    | none => some { m.clearHead with pc := .recWriteHead }
  | .recWriteHead => some { m.putHead with pc := .recovered }
  | .recovered => none
  | .idle => none
  | .commit =>
    if 0 < m.log.lh.length then some { m with pc := .writeLog 0 }
    else some { m with pc := .commitDone }
  | .writeLog tail =>
    match m.log.lh[tail]? with
    | some blockno => some (m.writeLogEntry tail blockno)
    | none => some { m with pc := .writeHead }
  | .writeHead => some { m.putHead with pc := .install 0 }
  | .install tail =>
    match m.log.lh[tail]? with
    | some blockno =>
      some { (m.installEntry tail blockno).bunpin blockno with pc := .install (tail + 1) }
    | none => some { m.clearHead with pc := .eraseHead }
  | .eraseHead => some { m.putHead with pc := .commitDone }
  | .commitDone =>
    -- log.committing = 0; wakeup(&log)
    some { m with
      log := endCommit m.log, pc := .idle
      commits := m.commits ++ m.inflight.toList, inflight := none }

/-! ## §3. The steps. -/

def booted (m : Machine) : Bool :=
  match m.pc with
  | .recReadHead | .recInstall _ | .recWriteHead | .recovered => false
  | _ => true

def crashed (m : Machine) : Machine :=
  { m with
    cache := fun _ => none, pins := fun _ => 0, log := initlog m.log.start m.log.size
    pc := .recReadHead, active := [], txn := [] }

/-- `end_op` by `op` once `struct log` is updated; the last operation hands the
transaction to `commit()`. -/
def finish (m : Machine) (op : Nat) (log : Log) (doCommit : Bool) : Machine :=
  if doCommit then
    { m with
      log := log, active := m.active.erase op, ended := op :: m.ended, pc := .commit
      inflight := some m.txn, txn := [] }
  else { m with log := log, active := m.active.erase op, ended := op :: m.ended }

def logged (m : Machine) (op b : Nat) (data : Block) (log : Log) (pin : Bool) : Machine :=
  { m with
    log := log
    cache := update m.cache b (some data)
    pins := if pin then update m.pins b (m.pins b + 1) else m.pins
    txn := m.txn ++ [{ op := op, blockno := b, data := data }] }

end Machine

open Machine

/-- The interleavings of operations, commit, cache traffic, crash and reboot. -/
inductive Step : Machine → Machine → Prop
  | beginOp {m : Machine} {log : Log} (hb : m.booted = true) (h : beginOp m.log = some log) :
    Step m { m with log := log, active := m.nextOp :: m.active, nextOp := m.nextOp + 1 }
  | logWrite {m : Machine} {op b : Nat} {data : Block} {log : Log} {pin : Bool} (hb : m.booted = true)
    (hop : op ∈ m.active) (hhome : m.Home b) (h : logWrite m.log b = .ok (log, pin)) :
    Step m (m.logged op b data log pin)
  | endOp {m : Machine} {op : Nat} {log : Log} {doCommit : Bool} (hb : m.booted = true)
    (hop : op ∈ m.active) (h : endOp m.log = .ok (log, doCommit)) :
    Step m (m.finish op log doCommit)
  | advance {m m' : Machine} (h : m.advance = some m') : Step m m'
  | bread {m : Machine} (b : Nat) : Step m (m.fill b)
  | evict {m : Machine} (b : Nat) (h : m.pins b = 0) :
    Step m { m with cache := update m.cache b none }
  | crash {m : Machine} : Step m m.crashed
  | boot {m : Machine} (h : m.pc = .recovered) :
    Step m { m with pc := .idle, base := m.disk, commits := [], inflight := none }

/-- Power-on with a disk whose log is empty, as mkfs leaves it. -/
def Init (logstart nlog : Nat) (m : Machine) : Prop :=
  ∃ d : Nat → Block, d logstart 0 = 0 ∧ 1 ≤ nlog ∧
    m = { disk := d, cache := fun _ => none, pins := fun _ => 0, log := initlog logstart nlog
          pc := .recReadHead, active := [], nextOp := 0, ended := [], txn := [], inflight := none
          commits := [], base := d }

end Xv6.LogLayer
