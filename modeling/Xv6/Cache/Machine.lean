/-
  Xv6.Cache.Machine — the buffer cache of bio.c.

  A critical section of bcache.lock or log.lock is one step, and so is each transfer of the
  disk.  `pins`, `modified`, `logged` and `history` are ghosts.
-/
import Xv6.Lib.Count
import Xv6.Lib.LinkedRing
import Xv6.Lib.Run
import Xv6.Log.Defs

namespace Xv6.Cache

open Lib LogLayer Function

abbrev NBUF : Nat := MAXOPBLOCKS * 3

abbrev ROOTDEV : Nat := 1

/-! ## §1. The plain disk. -/

/-- What the users of the cache see. -/
inductive Event (D : Type) where
  | stored (k : Nat) (d : D)
  /-- bread of block `k` has returned `d`. -/
  | returned (k : Nat) (d : D)
  deriving DecidableEq

/-- The contents of a plain disk after a history, the latest event first. -/
def contents {D : Type} (disk : Nat → D) : List (Event D) → Nat → D
  | [] => disk
  | .stored k d :: h => update (contents disk h) k d
  | .returned _ _ :: h => contents disk h

/-- A history of a plain disk: a read returns what was stored last. -/
def PlainDisk {D : Type} (disk : Nat → D) : List (Event D) → Prop
  | [] => True
  | .stored _ _ :: h => PlainDisk disk h
  | .returned k d :: h => d = contents disk h k ∧ PlainDisk disk h

/-! ## §2. `bcache`. -/

inductive Pc where
  | idle
  /-- In bget for block `k`, at `acquiresleep(&b->lock)`. -/
  | locking (b : Fin NBUF) (k : Nat)
  /-- In bread, at `if(!b->valid)`. -/
  | check (b : Fin NBUF) (k : Nat)
  /-- At `virtio_disk_rw(b, 0)`. -/
  | reading (b : Fin NBUF) (k : Nat)
  /-- At `b->valid = 1`. -/
  | filled (b : Fin NBUF) (k : Nat)
  /-- In bwrite, at `virtio_disk_rw(b, 1)`. -/
  | writing (b : Fin NBUF)
  /-- In brelse, after `releasesleep(&b->lock)`. -/
  | releasing (b : Fin NBUF)
  deriving DecidableEq

structure State (n : Nat) (D : Type) where
  links : Links (Fin NBUF)
  valid : Fin NBUF → Bool
  dev : Fin NBUF → Nat
  blockno : Fin NBUF → Nat
  lock : Fin NBUF → Option (Fin n)
  refcnt : Fin NBUF → Nat
  data : Fin NBUF → D
  disk : Nat → D
  log : Log
  pc : Fin n → Pc
  /-- The calls of bpin that no bunpin has undone. -/
  pins : Fin NBUF → Nat
  modified : Fin NBUF → Bool
  /-- The blocks for which log_write was called and no bwrite since. -/
  logged : List Nat
  history : List (Event D)

def binit : Links (Fin NBUF) := (List.finRange NBUF).foldl (fun k b => k.insert b) .empty

def State.start {n : Nat} {D : Type} (disk : Nat → D) (data : Fin NBUF → D) (log : Log) :
    State n D where
  links := binit
  valid := fun _ => false
  dev := fun _ => 0
  blockno := fun _ => 0
  lock := fun _ => none
  refcnt := fun _ => 0
  data := data
  disk := disk
  log := log
  pc := fun _ => .idle
  pins := fun _ => 0
  modified := fun _ => false
  logged := []
  history := []

inductive Fault where
  | bgetNoBuffers
  | endless
  deriving DecidableEq

/-! ## §3. The steps of the calls. -/

section Steps

variable {n : Nat} {D : Type} (s : State n D) (p : Fin n) (b : Fin NBUF)

def State.setPc (l : Pc) : State n D := { s with pc := update s.pc p l }

/-- The buffer that caches the block, in the first loop of bget. -/
def State.lookup (dev blockno : Nat) : Option (Option (Fin NBUF)) :=
  Links.walk s.links.next (fun b => s.dev b = dev && s.blockno b = blockno) (NBUF + 1)
    (s.links.next none)

/-- The least recently used unused buffer, in the second loop. -/
def State.unused : Option (Option (Fin NBUF)) :=
  Links.walk s.links.prev (fun b => s.refcnt b = 0) (NBUF + 1) (s.links.prev none)

def State.ref : State n D := { s with refcnt := update s.refcnt b (s.refcnt b + 1) }

def State.unref : State n D := { s with refcnt := update s.refcnt b (s.refcnt b - 1) }

def State.recycle (dev blockno : Nat) : State n D :=
  { s with
    dev := update s.dev b dev
    blockno := update s.blockno b blockno
    valid := update s.valid b false
    refcnt := update s.refcnt b 1 }

def State.bget (dev blockno : Nat) : Except Fault (State n D × Fin NBUF) :=
  match s.lookup dev blockno with
  | none => .error .endless
  | some (some b) => .ok (s.ref b, b)
  | some none =>
    match s.unused with
    | none => .error .endless
    | some none => .error .bgetNoBuffers
    | some (some b) => .ok (s.recycle b dev blockno, b)

def State.acquiresleep : State n D := { s with lock := update s.lock b (some p) }

def State.releasesleep : State n D := { s with lock := update s.lock b none }

def State.diskRead : State n D :=
  { s with data := update s.data b (s.disk (s.blockno b)) }

def State.diskWrite : State n D :=
  { s with
    disk := update s.disk (s.blockno b) (s.data b)
    modified := update s.modified b false
    logged := s.logged.filter fun k => k ≠ s.blockno b
    history := .stored (s.blockno b) (s.data b) :: s.history }

def State.setValid : State n D := { s with valid := update s.valid b true }

def State.ret (k : Nat) : State n D :=
  { s with pc := update s.pc p .idle, history := .returned k (s.data b) :: s.history }

def State.modify (d : D) : State n D :=
  { s with data := update s.data b d, modified := update s.modified b true }

def State.moveToFront : State n D := { s with links := (s.links.unlink b).insert b }

def State.relse : State n D :=
  if s.refcnt b - 1 = 0 then (s.unref b).moveToFront b else s.unref b

def State.bpin : State n D := { s.ref b with pins := update s.pins b (s.pins b + 1) }

def State.bunpin : State n D := { s.unref b with pins := update s.pins b (s.pins b - 1) }

/-- What log_write does to `struct log` and to the pins, with its record. -/
def State.logWrite (log : Log) (pin : Bool) : State n D :=
  { (if pin then s.bpin b else s) with
    log := log
    modified := update s.modified b false
    logged := s.blockno b :: s.logged
    history := .stored (s.blockno b) (s.data b) :: s.history }

end Steps

/-! ## §4. Runs. -/

inductive Act (n : Nat) (D : Type) where
  | bread (p : Fin n) (k : Nat)
  | modify (p : Fin n) (b : Fin NBUF) (d : D)
  | bwrite (p : Fin n) (b : Fin NBUF)
  | brelse (p : Fin n) (b : Fin NBUF)
  | bpin (p : Fin n) (b : Fin NBUF)
  | bunpin (p : Fin n) (b : Fin NBUF)
  | logWrite (p : Fin n) (b : Fin NBUF)
  | go (p : Fin n)
  /-- Another function of log.c changes the log. -/
  | log (log : Log)

section Runs

variable {n : Nat} {D : Type}

def State.go (s : State n D) (p : Fin n) : Option (State n D) :=
  match s.pc p with
  | .idle => none
  | .locking b k =>
    if s.lock b = none then some ((s.acquiresleep p b).setPc p (.check b k)) else none
  | .check b k => if s.valid b then some (s.ret p b k) else some (s.setPc p (.reading b k))
  | .reading b k => some ((s.diskRead b).setPc p (.filled b k))
  | .filled b k => some ((s.setValid b).ret p b k)
  | .writing b => some ((s.diskWrite b).setPc p .idle)
  | .releasing b => some ((s.relse b).setPc p .idle)

/-- One step; `none` if it cannot be taken or panics. -/
def State.step (s : State n D) : Act n D → Option (State n D)
  | .bread p k =>
    if s.pc p = .idle then
      match s.bget ROOTDEV k with
      | .ok (s', b) => some (s'.setPc p (.locking b k))
      | .error _ => none
    else none
  | .modify p b d => if s.pc p = .idle ∧ s.lock b = some p then some (s.modify b d) else none
  | .bwrite p b =>
    -- panics if the lock is not held
    if s.pc p = .idle ∧ s.lock b = some p then some (s.setPc p (.writing b)) else none
  | .brelse p b =>
    if s.pc p = .idle ∧ s.lock b = some p then
      some ((s.releasesleep b).setPc p (.releasing b))
    else none
  | .bpin p b => if s.pc p = .idle then some (s.bpin b) else none
  | .bunpin p b => if s.pc p = .idle then some (s.bunpin b) else none
  | .logWrite p b =>
    if s.pc p = .idle ∧ s.lock b = some p then
      match LogLayer.logWrite s.log (s.blockno b) with
      | .ok (log, pin) => some (s.logWrite b log pin)
      | .error _ => none
    else none
  | .go p => s.go p
  | .log log => some { s with log := log }

/-- Every block that was given to log_write and not to bwrite since is in a
pinned buffer. -/
def Pinned (s : State n D) : Prop :=
  ∀ k ∈ s.logged, ∃ b, s.dev b = ROOTDEV ∧ s.blockno b = k ∧ 0 < s.pins b

/-- A modified buffer is written or logged before it is released, and a bunpin undoes a bpin. -/
def Allowed (s : State n D) : Act n D → Prop
  | .brelse _ b => s.modified b = false
  | .bunpin _ b => 0 < s.pins b
  | _ => True

/-- The callers keep to the rules, and logged blocks stay pinned. -/
def CacheRun (disk : Nat → D) : State n D → Prop :=
  Reachable (fun s => ∃ data log, s = .start disk data log)
    fun s s' => ∃ a, Allowed s a ∧ s.step a = some s' ∧ Pinned s'

end Runs

/-! ## §5. What a step does. -/

section Moves

variable {n : Nat} {D : Type} {s s' : State n D}

def RingOfAll (k : Links (Fin NBUF)) : Prop := ∃ l, k.IsRing l ∧ ∀ b, b ∈ l

theorem length_lt {k : Links (Fin NBUF)} {l : List (Fin NBUF)} (h : k.IsRing l) :
    l.length < NBUF + 1 := by
  have hle := h.nodup.length_le_card
  rw [Fintype.card_fin] at hle
  omega

theorem lookup_eq (h : RingOfAll s.links) (dev k : Nat) : ∃ r, s.lookup dev k = some r ∧
    (∀ b, r = some b → s.dev b = dev ∧ s.blockno b = k) ∧
    (r = none → ∀ b, s.dev b = dev → s.blockno b ≠ k) := by
  obtain ⟨l, hring, hall⟩ := h
  refine ⟨_, hring.walk_next (length_lt hring), ?_, ?_⟩
  · intro b hb
    simpa using List.find?_some hb
  · intro hnone b hdev hno
    have hfind := List.find?_eq_none.mp hnone b (hall b)
    simp [hdev, hno] at hfind

theorem unused_eq (h : RingOfAll s.links) : ∃ r, s.unused = some r ∧
    ∀ b, r = some b → s.refcnt b = 0 := by
  obtain ⟨l, hring, hall⟩ := h
  refine ⟨_, hring.walk_prev (length_lt hring), ?_⟩
  intro b hb
  simpa using List.find?_some hb

theorem bget_ne_endless (h : RingOfAll s.links) (dev k : Nat) : s.bget dev k ≠ .error .endless := by
  obtain ⟨r, hr, -⟩ := lookup_eq h dev k
  obtain ⟨u, hu, -⟩ := unused_eq h
  unfold State.bget
  rw [hr, hu]
  cases r with
  | some b => exact nofun
  | none => cases u <;> exact nofun

/-- Every step, with what the process knows when it takes it. -/
inductive Move (s : State n D) : Act n D → State n D → Prop
  | found {p k b} (hpc : s.pc p = .idle) (hdev : s.dev b = ROOTDEV) (hno : s.blockno b = k) :
    Move s (.bread p k) ((s.ref b).setPc p (.locking b k))
  | recycled {p k b} (hpc : s.pc p = .idle) (hnew : ∀ b, s.dev b = ROOTDEV → s.blockno b ≠ k)
    (href : s.refcnt b = 0) :
    Move s (.bread p k) ((s.recycle b ROOTDEV k).setPc p (.locking b k))
  | locked {p b k} (hpc : s.pc p = .locking b k) (hlock : s.lock b = none) :
    Move s (.go p) ((s.acquiresleep p b).setPc p (.check b k))
  | cached {p b k} (hpc : s.pc p = .check b k) (hvalid : s.valid b = true) :
    Move s (.go p) (s.ret p b k)
  | uncached {p b k} (hpc : s.pc p = .check b k) (hvalid : s.valid b = false) :
    Move s (.go p) (s.setPc p (.reading b k))
  | read {p b k} (hpc : s.pc p = .reading b k) :
    Move s (.go p) ((s.diskRead b).setPc p (.filled b k))
  | filled {p b k} (hpc : s.pc p = .filled b k) : Move s (.go p) ((s.setValid b).ret p b k)
  | modify {p b} (d : D) (hpc : s.pc p = .idle) (hlock : s.lock b = some p) :
    Move s (.modify p b d) (s.modify b d)
  | bwrite {p b} (hpc : s.pc p = .idle) (hlock : s.lock b = some p) :
    Move s (.bwrite p b) (s.setPc p (.writing b))
  | written {p b} (hpc : s.pc p = .writing b) : Move s (.go p) ((s.diskWrite b).setPc p .idle)
  | absorbed {p b} (log : Log) (hpc : s.pc p = .idle) (hlock : s.lock b = some p) :
    Move s (.logWrite p b) (s.logWrite b log false)
  | logged {p b} (log : Log) (hpc : s.pc p = .idle) (hlock : s.lock b = some p) :
    Move s (.logWrite p b) (s.logWrite b log true)
  | brelse {p b} (hpc : s.pc p = .idle) (hlock : s.lock b = some p) :
    Move s (.brelse p b) ((s.releasesleep b).setPc p (.releasing b))
  | released {p b} (links : Links (Fin NBUF)) (hpc : s.pc p = .releasing b)
    (hlinks : links = s.links ∨ links = (s.links.unlink b).insert b) :
    Move s (.go p) ({ s.unref b with links := links }.setPc p .idle)
  | bpin {p b} (hpc : s.pc p = .idle) : Move s (.bpin p b) (s.bpin b)
  | bunpin {p b} (hpc : s.pc p = .idle) : Move s (.bunpin p b) (s.bunpin b)
  | log (log : Log) : Move s (.log log) { s with log := log }

theorem move_of_bread (hring : RingOfAll s.links) {p : Fin n} {k : Nat}
    (h : s.step (.bread p k) = some s') : Move s (.bread p k) s' := by
  obtain ⟨r, hr, hfound, hnone⟩ := lookup_eq hring ROOTDEV k
  obtain ⟨u, hu, hunused⟩ := unused_eq hring
  simp only [State.step, State.bget, hr, hu] at h
  split at h
  · next hpc =>
    cases r with
    | some b =>
      cases h
      exact .found hpc (hfound b rfl).1 (hfound b rfl).2
    | none =>
      cases u with
      | some b =>
        cases h
        exact .recycled hpc (hnone rfl) (hunused b rfl)
      | none => cases h
  · cases h

theorem move_of_go {p : Fin n} (h : s.go p = some s') : Move s (.go p) s' := by
  unfold State.go at h
  split at h
  case h_1 => cases h
  case h_2 b k hpc =>
    split at h
    · next hlock =>
      cases h
      exact .locked hpc hlock
    · cases h
  case h_3 b k hpc =>
    split at h
    · next hvalid =>
      cases h
      exact .cached hpc hvalid
    · next hvalid =>
      cases h
      exact .uncached hpc (Bool.not_eq_true _ ▸ hvalid)
  case h_4 b k hpc =>
    cases h
    exact .read hpc
  case h_5 b k hpc =>
    cases h
    exact .filled hpc
  case h_6 b hpc =>
    cases h
    exact .written hpc
  case h_7 b hpc =>
    cases h
    unfold State.relse
    split
    · exact .released _ hpc (.inr rfl)
    · exact .released _ hpc (.inl rfl)

/-- **Every step is one of these.** -/
theorem move_of_step (hring : RingOfAll s.links) {a : Act n D} (h : s.step a = some s') :
    Move s a s' := by
  cases a with
  | bread p k => exact move_of_bread hring h
  | go p => exact move_of_go h
  | log log =>
    cases h
    exact .log log
  | logWrite p b =>
    simp only [State.step] at h
    split at h
    · next hc =>
      split at h
      · next log pin _ =>
        cases h
        cases pin with
        | false => exact .absorbed log hc.1 hc.2
        | true => exact .logged log hc.1 hc.2
      · cases h
    · cases h
  | modify p b d | bwrite p b | brelse p b =>
    simp only [State.step] at h
    split at h
    · next hc =>
      cases h
      constructor
      · exact hc.1
      · exact hc.2
    · cases h
  | bpin p b | bunpin p b =>
    simp only [State.step] at h
    split at h
    · next hc =>
      cases h
      constructor
      exact hc
    · cases h

end Moves

end Xv6.Cache
