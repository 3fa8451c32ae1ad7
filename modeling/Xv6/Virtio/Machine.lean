/-
  Xv6.Virtio.Machine — virtio_disk_rw, virtio_disk_intr and the device.

  The device takes the entries of the avail ring in their order, and posts their heads to
  the used ring in any order, at any time.  `stage` is a ghost.
-/
import Xv6.Lib.Monitor
import Xv6.Lib.Ring

namespace Xv6.Virtio

open Lib Lib.Monitor Function

abbrev NUM : Nat := 8

instance : NeZero NUM := ⟨by decide⟩

abbrev BSIZE : Nat := 1024

abbrev VRING_DESC_F_NEXT : Nat := 1

abbrev VRING_DESC_F_WRITE : Nat := 2

abbrev VIRTIO_BLK_T_IN : Nat := 0

abbrev VIRTIO_BLK_T_OUT : Nat := 1

/-! ## §1. `struct disk`. -/

inductive Addr (B : Type) where
  | null
  | ops (i : Nat)
  | data (b : B)
  | status (i : Nat)

structure Desc (B : Type) where
  addr : Addr B
  len : Nat
  flags : Nat
  next : Nat

def Desc.zero {B : Type} : Desc B := { addr := .null, len := 0, flags := 0, next := 0 }

def Desc.hasNext {B : Type} (d : Desc B) : Bool := d.flags &&& VRING_DESC_F_NEXT ≠ 0

structure Req where
  type : Nat
  reserved : Nat
  sector : Nat

/-- `struct virtq_avail` and `struct virtq_used`. -/
structure Queue where
  idx : BitVec 16
  ring : Fin NUM → Nat

structure Info (B : Type) where
  b : Option B
  status : UInt8

inductive Stage where
  | idle
  | published
  | taken
  | posted
  /-- `b->disk` is 0 again. -/
  | cleared
  | finished
  deriving DecidableEq

structure Disk (B : Type) where
  desc : Nat → Desc B
  avail : Queue
  used : Queue
  free : Nat → Bool
  usedIdx : BitVec 16
  info : Nat → Info B
  ops : Nat → Req
  disk : B → Bool
  locked : B → Bool
  /-- How far the device has come in the avail ring. -/
  lastAvail : BitVec 16
  /-- The heads that the device has taken and not posted. -/
  taken : List Nat
  stage : Nat → Stage

def Disk.init {B : Type} : Disk B where
  desc := fun _ => .zero
  avail := { idx := 0, ring := fun _ => 0 }
  used := { idx := 0, ring := fun _ => 0 }
  free := fun i => i < NUM
  usedIdx := 0
  info := fun _ => { b := none, status := 0 }
  ops := fun _ => { type := 0, reserved := 0, sector := 0 }
  disk := fun _ => false
  locked := fun _ => false
  lastAvail := 0
  taken := []
  stage := fun _ => .idle

inductive Panic where
  | freeDesc1
  | freeDesc2
  | intrStatus
  | nullBuf
  deriving DecidableEq

structure Idx where
  head : Nat
  data : Nat
  status : Nat
  deriving DecidableEq

def Idx.list (idx : Idx) : List Nat := [idx.head, idx.data, idx.status]

/-! ## §2. The driver's own steps. -/

section Driver

variable {B : Type} [DecidableEq B] (x : Disk B)

def Disk.allocDesc : Option Nat := (List.range NUM).find? x.free

def Disk.take (i : Nat) : Disk B := { x with free := update x.free i false }

def Disk.freeDesc (i : Nat) : Except Panic (Disk B) :=
  if i ≥ NUM then .error .freeDesc1
  else if x.free i then .error .freeDesc2
  else .ok { x with
    desc := update x.desc i .zero
    free := update x.free i true }

/-- The three descriptors of a request, with `b->disk = 1` and the entry for
virtio_disk_intr. -/
def Disk.format (b : B) (write : Bool) (sector : Nat) (idx : Idx) : Disk B :=
  let op : Req :=
    { type := if write then VIRTIO_BLK_T_OUT else VIRTIO_BLK_T_IN, reserved := 0, sector := sector }
  let first : Desc B :=
    { addr := .ops idx.head, len := 16, flags := VRING_DESC_F_NEXT, next := idx.data }
  let second : Desc B :=
    { addr := .data b, len := BSIZE
      flags := (if write then 0 else VRING_DESC_F_WRITE) ||| VRING_DESC_F_NEXT
      next := idx.status }
  let third : Desc B :=
    { addr := .status idx.head, len := 1, flags := VRING_DESC_F_WRITE, next := 0 }
  { x with
    ops := update x.ops idx.head op
    desc := update (update (update x.desc idx.head first)
      idx.data second) idx.status third
    info := update x.info idx.head { b := some b, status := 0xff }
    disk := update x.disk b true }

def Disk.putAvail (h : Nat) : Disk B :=
  { x with avail := { x.avail with ring := update x.avail.ring (Ring.slot x.avail.idx) h } }

def Disk.setStage (h : Nat) (st : Stage) : Disk B := { x with stage := update x.stage h st }

/-- `disk.avail->idx += 1`, which publishes the chain of `h`. -/
def Disk.publish (h : Nat) : Disk B :=
  { x with avail := { x.avail with idx := x.avail.idx + 1 } }.setStage h .published

def Disk.forget (h : Nat) : Disk B :=
  { x with info := update x.info h { x.info h with b := none } }.setStage h .idle

def Disk.usedFront : Nat := x.used.ring (Ring.slot x.usedIdx)

/-- `b->disk = 0`, for the request that starts at `id`. -/
def Disk.complete (b : B) (id : Nat) : Disk B :=
  { x with disk := update x.disk b false }.setStage id .cleared

def Disk.advance (id : Nat) : Disk B :=
  { x with usedIdx := x.usedIdx + 1 }.setStage id .finished

end Driver

/-! ## §3. The device. -/

section Device

variable {B : Type} (x : Disk B)

def Disk.devTake : Option (Disk B) :=
  if x.lastAvail = x.avail.idx then none
  else
    let h := x.avail.ring (Ring.slot x.lastAvail)
    some ({ x with lastAvail := x.lastAvail + 1, taken := h :: x.taken }.setStage h .taken)

/-- The device writes the status byte to the address in the third descriptor of
the chain. -/
def Disk.writeStatus (h : Nat) (status : UInt8) : Nat → Info B :=
  match (x.desc (x.desc (x.desc h).next).next).addr with
  | .status i => update x.info i { x.info i with status := status }
  | _ => x.info

def Disk.devPost (h : Nat) (status : UInt8) : Option (Disk B) :=
  if h ∈ x.taken then
    some ({ x with
      taken := x.taken.erase h
      info := x.writeStatus h status
      used := { idx := x.used.idx + 1
                ring := update x.used.ring (Ring.slot x.used.idx) h } }.setStage h .posted)
  else none

end Device

/-! ## §4. The calls. -/

/-- `&disk.free[0]`, and a buffer. -/
inductive Chan (B : Type) where
  | free
  | buf (b : B)
  deriving DecidableEq

inductive Input (B : Type) where
  /-- bread or bwrite calls virtio_disk_rw. -/
  | rw (b : B) (write : Bool) (blockno : Nat)
  | intr
  | take
  | post (h : Nat) (status : UInt8)

inductive Pc (B : Type) where
  | idle
  | rEnter (b : B) (write : Bool) (sector : Nat)
  /-- In alloc3_desc, with what it has got so far. -/
  | rAlloc (b : B) (write : Bool) (sector : Nat) (got : List Nat)
  /-- It gives back what it has got, and sleeps. -/
  | rUndo (b : B) (write : Bool) (sector : Nat) (todo : List Nat)
  | rUndoWake (b : B) (write : Bool) (sector : Nat) (todo : List Nat)
  | rFormat (b : B) (write : Bool) (sector : Nat) (idx : Idx)
  | rRing (b : B) (idx : Idx)
  | rPublish (b : B) (idx : Idx)
  | rWait (b : B) (idx : Idx)
  | rSleep (b : B) (idx : Idx)
  | rDone (b : B) (idx : Idx)
  | rFree (b : B) (idx : Idx) (i : Nat)
  | rFreeWake (b : B) (idx : Idx) (next : Option Nat)
  | rUnlock (b : B)
  | rRelse (b : B)
  | iEnter
  | iAck
  | iLoop
  | iClear (id : Nat)
  | iWake (b : B) (id : Nat)
  | iNext (id : Nat)
  | iUnlock
  | panicked (e : Panic)
  deriving DecidableEq

section Calls

variable {B : Type} [DecidableEq B]

def Disk.call (x : Disk B) : Input B → Disk B × Pc B
  | .rw b write blockno =>
    -- the sleep-lock of b is free
    if x.locked b then (x, .idle)
    else ({ x with locked := update x.locked b true },
      .rEnter b write (blockno * (BSIZE / 512) % 2 ^ 32))
  | .intr => (x, .iEnter)
  | .take | .post _ _ => (x, .idle)

def Disk.allocNext (x : Disk B) (b : B) (write : Bool) (sector : Nat) (got : List Nat) :
    Disk B × Pc B :=
  match x.allocDesc with
  | none => (x, .rUndo b write sector got)
  | some i =>
    (x.take i, match got with
      | [i₀, i₁] => .rFormat b write sector ⟨i₀, i₁, i⟩
      | _ => .rAlloc b write sector (got ++ [i]))

def Disk.freeThen (x : Disk B) (i : Nat) (next : Pc B) : Disk B × Pc B :=
  match x.freeDesc i with
  | .ok x' => (x', next)
  | .error e => (x, .panicked e)

def Disk.intrBody (x : Disk B) (id : Nat) : Disk B × Pc B :=
  if (x.info id).status ≠ 0 then (x, .panicked .intrStatus)
  else
    match (x.info id).b with
    | none => (x, .panicked .nullBuf)
    | some b => (x.complete b id, .iWake b id)

def code : Pc B → Instr (Disk B) (Pc B) (Chan B) (Input B)
  | .idle => .access fun x _ i => x.call i
  -- virtio_disk_rw
  | .rEnter b write sector => .acquire (.rAlloc b write sector [])
  | .rAlloc b write sector got => .access fun x _ _ => x.allocNext b write sector got
  | .rUndo b write sector [] => .sleep .free (.rAlloc b write sector [])
  | .rUndo b write sector (i :: todo) =>
    .access fun x _ _ => x.freeThen i (.rUndoWake b write sector todo)
  | .rUndoWake b write sector todo => .wakeup .free (.rUndo b write sector todo)
  | .rFormat b write sector idx =>
    .access fun x _ _ => (x.format b write sector idx, .rRing b idx)
  | .rRing b idx => .access fun x _ _ => (x.putAvail idx.head, .rPublish b idx)
  | .rPublish b idx => .access fun x _ _ => (x.publish idx.head, .rWait b idx)
  | .rWait b idx => .access fun x _ _ => (x, if x.disk b then .rSleep b idx else .rDone b idx)
  | .rSleep b idx => .sleep (.buf b) (.rWait b idx)
  | .rDone b idx => .access fun x _ _ => (x.forget idx.head, .rFree b idx idx.head)
  | .rFree b idx i => .access fun x _ _ =>
    x.freeThen i
      (.rFreeWake b idx (if (x.desc i).hasNext then some (x.desc i).next else none))
  | .rFreeWake b idx next => .wakeup .free (match next with
    | some i => .rFree b idx i
    | none => .rUnlock b)
  | .rUnlock b => .release (.rRelse b)
  | .rRelse b => .access fun x _ _ =>
    ({ x with locked := update x.locked b false }, .idle)
  -- virtio_disk_intr
  | .iEnter => .acquire .iAck
  | .iAck => .access fun x _ _ => (x, .iLoop)
  | .iLoop => .access fun x _ _ =>
    (x, if x.usedIdx ≠ x.used.idx then .iClear x.usedFront else .iUnlock)
  | .iClear id => .access fun x _ _ => x.intrBody id
  | .iWake b id => .wakeup (.buf b) (.iNext id)
  | .iNext id => .access fun x _ _ => (x.advance id, .iLoop)
  | .iUnlock => .release .idle
  -- the kernel stands still
  | .panicked e => .access fun x _ _ => (x, .panicked e)

def device (x : Disk B) : Input B → Option (Disk B)
  | .take => x.devTake
  | .post h status => x.devPost h status
  | .rw _ _ _ | .intr => none

def prog : Program (Disk B) (Pc B) (Chan B) (Input B) where
  code := code
  env := device

end Calls

def held {B : Type} : Pc B → Bool
  | .idle | .rEnter _ _ _ | .rRelse _ | .iEnter => false
  | _ => true

abbrev State (n : Nat) (B : Type) := Monitor.State n (Disk B) (Pc B) (Chan B)

def DiskRun {n : Nat} {B : Type} [DecidableEq B] (s : State n B) : Prop :=
  Monitor.RunWith prog Disk.init .idle (fun _ _ => True) s

/-! ## §5. What an access does. -/

section Descriptors

variable {B : Type}

theorem freeDesc_eq_ok {x x' : Disk B} {i : Nat} (h : x.freeDesc i = .ok x') :
    i < NUM ∧ x.free i = false ∧ x' = { x with
      desc := update x.desc i .zero
      free := update x.free i true } := by
  unfold Disk.freeDesc at h
  split at h
  · cases h
  · next hi =>
    split at h
    · cases h
    · next hfree =>
      cases h
      exact ⟨Nat.lt_of_not_ge hi, Bool.not_eq_true _ ▸ hfree, rfl⟩

theorem freeDesc_ne_error {x : Disk B} {i : Nat} {e : Panic} (hi : i < NUM)
    (hfree : x.free i = false) : x.freeDesc i ≠ .error e := by
  unfold Disk.freeDesc
  rw [if_neg (Nat.not_le_of_lt hi), hfree]
  exact nofun

theorem allocDesc_eq_some {x : Disk B} {i : Nat} (h : x.allocDesc = some i) :
    i < NUM ∧ x.free i = true :=
  ⟨List.mem_range.mp (List.mem_of_find?_eq_some h), List.find?_some h⟩

end Descriptors

section Accesses

variable {B : Type} [DecidableEq B]

inductive Access (x : Disk B) : Pc B → Disk B → Pc B → Prop where
  | call {b write sector} (hfree : x.locked b = false) :
      Access x .idle { x with locked := update x.locked b true } (.rEnter b write sector)
  | intr : Access x .idle x .iEnter
  | idle : Access x .idle x .idle
  | alloc {b write sector got i} (hi : x.allocDesc = some i) :
      Access x (.rAlloc b write sector got) (x.take i) (.rAlloc b write sector (got ++ [i]))
  | allocLast {b write sector i₀ i₁ i} (hi : x.allocDesc = some i) :
      Access x (.rAlloc b write sector [i₀, i₁]) (x.take i) (.rFormat b write sector ⟨i₀, i₁, i⟩)
  | allocFails {b write sector got} :
      Access x (.rAlloc b write sector got) x (.rUndo b write sector got)
  | undo {x' b write sector i todo} (hx : x.freeDesc i = .ok x') :
      Access x (.rUndo b write sector (i :: todo)) x' (.rUndoWake b write sector todo)
  | undoPanics {b write sector i todo e} (hx : x.freeDesc i = .error e) :
      Access x (.rUndo b write sector (i :: todo)) x (.panicked e)
  | format {b write sector idx} :
      Access x (.rFormat b write sector idx) (x.format b write sector idx) (.rRing b idx)
  | ring {b idx} : Access x (.rRing b idx) (x.putAvail idx.head) (.rPublish b idx)
  | publish {b idx} : Access x (.rPublish b idx) (x.publish idx.head) (.rWait b idx)
  | waits {b idx} (hb : x.disk b = true) : Access x (.rWait b idx) x (.rSleep b idx)
  | leaves {b idx} (hb : x.disk b = false) : Access x (.rWait b idx) x (.rDone b idx)
  | forget {b idx} : Access x (.rDone b idx) (x.forget idx.head) (.rFree b idx idx.head)
  | free {x' b idx i} (hx : x.freeDesc i = .ok x') :
      Access x (.rFree b idx i) x'
        (.rFreeWake b idx (if (x.desc i).hasNext then some (x.desc i).next else none))
  | freePanics {b idx i e} (hx : x.freeDesc i = .error e) :
      Access x (.rFree b idx i) x (.panicked e)
  | relse {b} : Access x (.rRelse b) { x with locked := update x.locked b false } .idle
  | ack : Access x .iAck x .iLoop
  | front (hne : x.usedIdx ≠ x.used.idx) : Access x .iLoop x (.iClear x.usedFront)
  | drained : Access x .iLoop x .iUnlock
  | status {id} : Access x (.iClear id) x (.panicked .intrStatus)
  | null {id} (hb : (x.info id).b = none) : Access x (.iClear id) x (.panicked .nullBuf)
  | complete {id b} (hb : (x.info id).b = some b) :
      Access x (.iClear id) (x.complete b id) (.iWake b id)
  | advance {id} : Access x (.iNext id) (x.advance id) .iLoop
  | panicked {e} : Access x (.panicked e) x (.panicked e)

theorem access_call (x : Disk B) (i : Input B) : Access x .idle (x.call i).1 (x.call i).2 := by
  cases i with
  | rw b write blockno =>
    unfold Disk.call
    dsimp only
    split
    · exact .idle
    · next hb => exact .call (Bool.not_eq_true _ ▸ hb)
  | intr => exact .intr
  | take | post => exact .idle

theorem access_allocNext (x : Disk B) (b : B) (write : Bool) (sector : Nat) (got : List Nat) :
    Access x (.rAlloc b write sector got) (x.allocNext b write sector got).1
      (x.allocNext b write sector got).2 := by
  unfold Disk.allocNext
  split
  · exact .allocFails
  · next i hi =>
    dsimp only
    split
    · exact .allocLast hi
    · exact .alloc hi

theorem access_intrBody (x : Disk B) (id : Nat) :
    Access x (.iClear id) (x.intrBody id).1 (x.intrBody id).2 := by
  unfold Disk.intrBody
  split
  · exact .status
  · split
    · next hb => exact .null hb
    · next b hb => exact .complete hb

theorem access_of_code {l : Pc B} {f : Disk B → Bool → Input B → Disk B × Pc B}
    (hc : prog.code l = .access f) (x : Disk B) (killed : Bool) (i : Input B) :
    Access x l (f x killed i).1 (f x killed i).2 := by
  change code l = .access f at hc
  unfold code at hc
  split at hc <;> cases hc
  · exact access_call x i
  · exact access_allocNext x _ _ _ _
  · next b write sector i todo =>
    show Access x _ (x.freeThen i _).1 (x.freeThen i _).2
    unfold Disk.freeThen
    split
    · next x' hx => exact .undo hx
    · next e hx => exact .undoPanics hx
  · exact .format
  · exact .ring
  · exact .publish
  · next b idx =>
    show Access x _ x (if x.disk b then _ else _)
    split
    · next hb => exact .waits hb
    · next hb => exact .leaves (Bool.not_eq_true _ ▸ hb)
  · exact .forget
  · next b idx i =>
    show Access x _ (x.freeThen i _).1 (x.freeThen i _).2
    unfold Disk.freeThen
    split
    · next x' hx => exact .free hx
    · next e hx => exact .freePanics hx
  · exact .relse
  · exact .ack
  · show Access x _ x (if x.usedIdx ≠ x.used.idx then _ else _)
    split
    · next hne => exact .front hne
    · exact .drained
  · exact access_intrBody x _
  · exact .advance
  · exact .panicked

theorem disciplined : Disciplined (prog (B := B)) held where
  access l f hc x killed i := by
    have h := access_of_code hc x killed i
    generalize (f x killed i).1 = x' at h
    generalize (f x killed i).2 = l' at h
    cases h <;> rfl
  acquire l l' hc := by
    change code l = _ at hc
    unfold code at hc
    split at hc <;> cases hc <;> exact ⟨rfl, rfl⟩
  release l l' hc := by
    change code l = _ at hc
    unfold code at hc
    split at hc <;> cases hc <;> exact ⟨rfl, rfl⟩
  sleep l c l' hc := by
    change code l = _ at hc
    unfold code at hc
    split at hc <;> cases hc <;> exact ⟨rfl, rfl⟩
  wakeup l c l' hc := by
    change code l = _ at hc
    unfold code at hc
    split at hc <;> cases hc <;> first | rfl | skip
    split <;> rfl

end Accesses

end Xv6.Virtio
