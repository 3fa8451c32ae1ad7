/-
  Xv6.Pipe.Machine — pipewrite, piperead and pipeclose, as a program of `Monitor`.

  What the user's memory holds and whether it is mapped is an input.  `accepted` and `reads`
  are ghosts.
-/
import Xv6.Lib.Monitor
import Xv6.Lib.Ring

namespace Xv6.Pipe

open Lib Lib.Monitor

abbrev PIPESIZE : Nat := 512

instance : NeZero PIPESIZE := ⟨by decide⟩

/-! ## §1. The pipe. -/

structure Pipe where
  data : Fin PIPESIZE → UInt8
  nread : BitVec 32
  nwrite : BitVec 32
  readopen : Bool
  writeopen : Bool
  freed : Bool
  accepted : List UInt8
  reads : List (List UInt8)

/-- After pipealloc; a page from kalloc holds anything. -/
def Pipe.init (junk : Fin PIPESIZE → UInt8) : Pipe :=
  { data := junk, nread := 0, nwrite := 0, readopen := true, writeopen := true, freed := false
    accepted := [], reads := [] }

def Pipe.isEmpty (x : Pipe) : Bool := x.nread = x.nwrite

def Pipe.isFull (x : Pipe) : Bool := x.nwrite = x.nread + BitVec.ofNat 32 PIPESIZE

def Pipe.store (x : Pipe) (ch : UInt8) : Pipe :=
  { x with
    data := Function.update x.data (Ring.slot x.nwrite) ch
    nwrite := x.nwrite + 1
    accepted := x.accepted ++ [ch] }

def Pipe.advance (x : Pipe) : Pipe := { x with nread := x.nread + 1 }

def Pipe.front (x : Pipe) : UInt8 := x.data (Ring.slot x.nread)

def Pipe.shut (x : Pipe) : Bool → Pipe
  | true => { x with writeopen := false }
  | false => { x with readopen := false }

def Pipe.deliver (x : Pipe) (got : List UInt8) : Pipe := { x with reads := x.reads ++ [got] }

/-! ## §2. The calls. -/

inductive Chan where
  | nread
  | nwrite
  deriving DecidableEq

inductive Input where
  | write (n : Int)
  | read (n : Int)
  | close (writable : Bool)
  /-- What copyin finds; `none` if it returns -1. -/
  | copyin (ch : Option UInt8)
  | copyout (ok : Bool)
  deriving DecidableEq

/-- In pipewrite, `i` bytes are written, `k` of them since the last wakeup; in piperead, `got` is
copied out. -/
inductive Pc where
  | idle
  | wEnter (n : Int)
  | wLoop (n : Int) (i k : Nat)
  | wFull (n : Int) (i k : Nat)
  /-- The pipe is full: `wakeup(&pi->nread)`. -/
  | wWake (n : Int) (i : Nat)
  | wSleep (n : Int) (i : Nat)
  | wCopy (n : Int) (i k : Nat)
  | wStore (n : Int) (i k : Nat) (ch : UInt8)
  | wDone (i : Nat)
  /-- Before the `release`, with the value to return. -/
  | wUnlock (r : Int)
  | rEnter (n : Int)
  | rWait (n : Int)
  | rKilled (n : Int)
  | rSleep (n : Int)
  | rLoop (n : Int) (got : List UInt8)
  | rCopy (n : Int) (got : List UInt8) (ch : UInt8)
  | rDone (got : List UInt8)
  | rReturn (got : List UInt8)
  | rUnlock
  | cEnter (writable : Bool)
  | cClose (writable : Bool)
  | cWake (writable : Bool)
  | cTest
  | cUnlock
  | cLast
  | cFree
  deriving DecidableEq

def Pipe.call (x : Pipe) : Input → Pc
  | .write n => if x.writeopen then .wEnter n else .idle
  | .read n => if x.readopen then .rEnter n else .idle
  | .close true => if x.writeopen then .cEnter true else .idle
  | .close false => if x.readopen then .cEnter false else .idle
  | .copyin _ | .copyout _ => .idle

def Pipe.writeTest (x : Pipe) (killed : Bool) (n : Int) (i k : Nat) : Pc :=
  if i < n then
    if !x.readopen || killed then .wUnlock (-1) else .wFull n i k
  else .wDone i

/-- copyin in pipewrite; `faults` if the address may be unmapped. -/
def afterCopyin (faults : Bool) (n : Int) (i k : Nat) : Input → Pc
  | .copyin (some ch) => .wStore n i k ch
  | .copyin none => if faults then .wDone i else .wCopy n i k
  | _ => .wCopy n i k

def Pipe.readNext (x : Pipe) (n : Int) (got : List UInt8) : Pipe × Pc :=
  if got.length < n ∧ ¬ x.isEmpty then (x.advance, .rCopy n got x.front) else (x, .rDone got)

def afterCopyout (faults : Bool) (n : Int) (got : List UInt8) (ch : UInt8) : Input → Pc
  | .copyout true => .rLoop n (got ++ [ch])
  | .copyout false => if faults then .rDone got else .rCopy n got ch
  | _ => .rCopy n got ch

def code (faults : Bool) : Pc → Instr Pipe Pc Chan Input
  | .idle => .access fun x _ i => (x, x.call i)
  -- pipewrite
  | .wEnter n => .acquire (.wLoop n 0 0)
  | .wLoop n i k => .access fun x killed _ => (x, x.writeTest killed n i k)
  | .wFull n i k => .access fun x _ _ => (x, if x.isFull then .wWake n i else .wCopy n i k)
  | .wWake n i => .wakeup .nread (.wSleep n i)
  | .wSleep n i => .sleep .nwrite (.wLoop n i 0)
  | .wCopy n i k => .access fun x _ inp => (x, afterCopyin faults n i k inp)
  | .wStore n i k ch => .access fun x _ _ => (x.store ch, .wLoop n (i + 1) (k + 1))
  | .wDone i => .wakeup .nread (.wUnlock i)
  | .wUnlock _ => .release .idle
  -- piperead
  | .rEnter n => .acquire (.rWait n)
  | .rWait n => .access fun x _ _ =>
    (x, if x.isEmpty && x.writeopen then .rKilled n else .rLoop n [])
  | .rKilled n => .access fun x killed _ => (x, if killed then .rUnlock else .rSleep n)
  | .rSleep n => .sleep .nread (.rWait n)
  | .rLoop n got => .access fun x _ _ => x.readNext n got
  | .rCopy n got ch => .access fun x _ inp => (x, afterCopyout faults n got ch inp)
  | .rDone got => .wakeup .nwrite (.rReturn got)
  | .rReturn got => .access fun x _ _ => (x.deliver got, .rUnlock)
  | .rUnlock => .release .idle
  -- pipeclose
  | .cEnter writable => .acquire (.cClose writable)
  | .cClose writable => .access fun x _ _ => (x.shut writable, .cWake writable)
  | .cWake writable => .wakeup (if writable then .nread else .nwrite) .cTest
  | .cTest => .access fun x _ _ =>
    (x, if !x.readopen && !x.writeopen then .cLast else .cUnlock)
  | .cUnlock => .release .idle
  | .cLast => .release .cFree
  | .cFree => .access fun x _ _ => ({ x with freed := true }, .idle)

def prog (faults : Bool) : Program Pipe Pc Chan Input where
  code := code faults
  env := fun _ _ => none

def held : Pc → Bool
  | .idle | .wEnter _ | .rEnter _ | .cEnter _ | .cFree => false
  | _ => true

abbrev State (n : Nat) := Monitor.State n Pipe Pc Chan

def RunWith {n : Nat} (faults : Bool) (ok : State n → Act n Input → Prop) (s : State n) : Prop :=
  ∃ junk, Monitor.RunWith (prog faults) (Pipe.init junk) .idle ok s

/-! ## §3. The lock. -/

inductive Access (faults killed : Bool) (x : Pipe) : Pc → Pipe → Pc → Prop where
  | deserted {n i k} (hexit : ¬ (x.readopen = true ∧ killed = false)) :
      Access faults killed x (.wLoop n i k) x (.wUnlock (-1))
  | goOn {n i k} (hok : x.readopen = true ∧ killed = false) :
      Access faults killed x (.wLoop n i k) x (.wFull n i k)
  | written {n i k} : Access faults killed x (.wLoop n i k) x (.wDone i)
  | full {n i k} (hfull : x.isFull = true) : Access faults killed x (.wFull n i k) x (.wWake n i)
  | room {n i k} (hroom : x.isFull = false) :
      Access faults killed x (.wFull n i k) x (.wCopy n i k)
  | copyin {n i k} (ch : UInt8) : Access faults killed x (.wCopy n i k) x (.wStore n i k ch)
  | badSource {n i k} (hf : faults = true) : Access faults killed x (.wCopy n i k) x (.wDone i)
  | store {n i k ch} :
      Access faults killed x (.wStore n i k ch) (x.store ch) (.wLoop n (i + 1) (k + 1))
  | await {n} (hwait : x.isEmpty = true ∧ x.writeopen = true) :
      Access faults killed x (.rWait n) x (.rKilled n)
  | ready {n} : Access faults killed x (.rWait n) x (.rLoop n [])
  | giveUp {n} : Access faults killed x (.rKilled n) x .rUnlock
  | sleepOn {n} : Access faults killed x (.rKilled n) x (.rSleep n)
  | take {n got} (hne : x.isEmpty = false) :
      Access faults killed x (.rLoop n got) x.advance (.rCopy n got x.front)
  | enough {n got} : Access faults killed x (.rLoop n got) x (.rDone got)
  | copyout {n got ch} : Access faults killed x (.rCopy n got ch) x (.rLoop n (got ++ [ch]))
  | badTarget {n got ch} (hf : faults = true) :
      Access faults killed x (.rCopy n got ch) x (.rDone got)
  | deliver {got} : Access faults killed x (.rReturn got) (x.deliver got) .rUnlock
  | shut {writable} : Access faults killed x (.cClose writable) (x.shut writable) (.cWake writable)
  | last : Access faults killed x .cTest x .cLast
  | stays : Access faults killed x .cTest x .cUnlock
  | same {l} (hheld : held l = true) : Access faults killed x l x l

section Accesses

variable (x : Pipe) (faults killed : Bool) (n : Int) (i k : Nat) (got : List UInt8) (ch : UInt8)
  (inp : Input)

theorem access_writeTest : Access faults killed x (.wLoop n i k) x (x.writeTest killed n i k) := by
  unfold Pipe.writeTest
  split
  · split
    · next h =>
      apply Access.deserted
      intro hok
      rw [hok.1, hok.2] at h
      cases h
    · next h =>
      rw [Bool.not_eq_true, Bool.or_eq_false_iff] at h
      exact .goOn ⟨Bool.not_eq_false' .. ▸ h.1, h.2⟩
  · exact .written

theorem access_afterCopyin :
    Access faults killed x (.wCopy n i k) x (afterCopyin faults n i k inp) := by
  cases inp with
  | copyin o =>
    cases o with
    | some ch => exact .copyin ch
    | none =>
      show Access faults killed x _ x (if faults then .wDone i else .wCopy n i k)
      split
      · next hf => exact .badSource hf
      · exact .same rfl
  | _ => exact .same rfl

theorem access_readNext :
    Access faults killed x (.rLoop n got) (x.readNext n got).1 (x.readNext n got).2 := by
  unfold Pipe.readNext
  split
  · next hif => exact .take (Bool.eq_false_iff.mpr hif.2)
  · exact .enough

theorem access_afterCopyout :
    Access faults killed x (.rCopy n got ch) x (afterCopyout faults n got ch inp) := by
  unfold afterCopyout
  split
  · exact .copyout
  · split
    · next hf => exact .badTarget hf
    · exact .same rfl
  · exact .same rfl

theorem access_of_code {faults : Bool} {l : Pc} {f : Pipe → Bool → Input → Pipe × Pc}
    (hc : (prog faults).code l = .access f) (hheld : held l = true) :
    Access faults killed x l (f x killed inp).1 (f x killed inp).2 := by
  cases l <;> cases hc
  case idle | cFree => cases hheld
  case wLoop n i k => exact access_writeTest x faults killed n i k
  case wFull n i k =>
    show Access faults killed x _ x (if x.isFull then .wWake n i else .wCopy n i k)
    split
    · next hfull => exact .full hfull
    · next hfull => exact .room (Bool.eq_false_iff.mpr hfull)
  case wCopy n i k => exact access_afterCopyin x faults killed n i k inp
  case wStore => exact .store
  case rWait n =>
    show Access faults killed x _ x (if x.isEmpty && x.writeopen then .rKilled n else .rLoop n [])
    split
    · next hwait => exact .await (Bool.and_eq_true_iff.mp hwait)
    · exact .ready
  case rKilled n =>
    show Access faults killed x _ x (if killed then .rUnlock else .rSleep n)
    split
    · exact .giveUp
    · exact .sleepOn
  case rLoop n got => exact access_readNext x faults killed n got
  case rCopy n got ch => exact access_afterCopyout x faults killed n got ch inp
  case rReturn => exact .deliver
  case cClose => exact .shut
  case cTest =>
    show Access faults killed x _ x (if _ then _ else _)
    split
    · exact .last
    · exact .stays

end Accesses

theorem held_access {faults killed : Bool} {x x' : Pipe} {l l' : Pc}
    (h : Access faults killed x l x' l') : held l' = true := by
  cases h with
  | same hheld => exact hheld
  | _ => rfl

theorem held_call (x : Pipe) (inp : Input) : held (x.call inp) = false := by
  unfold Pipe.call
  split <;> first | rfl | (split <;> rfl)

theorem disciplined (faults : Bool) : Disciplined (prog faults) held where
  access l f hc x killed inp := by
    cases hheld : held l with
    | true => exact held_access (access_of_code x killed inp hc hheld)
    | false =>
      cases l <;> cases hc <;> first | exact held_call x inp | rfl | cases hheld
  acquire l l' hc := by
    cases l <;> cases hc <;> exact ⟨rfl, rfl⟩
  release l l' hc := by
    cases l <;> cases hc <;> exact ⟨rfl, rfl⟩
  sleep l c l' hc := by
    cases l <;> cases hc <;> exact ⟨rfl, rfl⟩
  wakeup l c l' hc := by
    cases l <;> cases hc <;> rfl

end Xv6.Pipe
