/-
  Xv6.Console.Machine — consoleread and consoleintr, as a program of `Monitor`.

  Interrupts come whenever they get the lock.  `history` and `reads` are ghosts.
-/
import Xv6.Console.Editor
import Xv6.Lib.Monitor
import Xv6.Lib.Ring

namespace Xv6.Console

open Lib Lib.Monitor

/-! ## §1. `cons`. -/

structure Cons where
  buf : Fin INPUT_BUF_SIZE → UInt8
  r : BitVec 32
  w : BitVec 32
  e : BitVec 32
  history : List Event
  reads : List (Int × List UInt8)

namespace Cons

def init : Cons :=
  { buf := fun _ => 0, r := 0, w := 0, e := 0, history := [], reads := [] }

def editor (x : Cons) : Editor := replay x.history

def note (x : Cons) (ev : Event) : Cons := { x with history := x.history ++ [ev] }

/-- `c = cons.buf[cons.r++ % INPUT_BUF_SIZE]`, without the value. -/
def take (x : Cons) : Cons := { x with r := x.r + 1 }.note .take

def putBack (x : Cons) : Cons := { x with r := x.r - 1 }.note .putBack

def deliver (x : Cons) (target : Int) (got : List UInt8) : Cons :=
  { x with reads := x.reads ++ [(target, got)] }

def erase (x : Cons) : Cons := { x with e := x.e - 1 }

def store (x : Cons) (c : UInt8) : Cons :=
  { x with buf := Function.update x.buf (Ring.slot x.e) c, e := x.e + 1 }

def accept (x : Cons) : Cons := { x with w := x.e }

end Cons

/-! ## §2. The calls. -/

inductive Chan where
  | r
  deriving DecidableEq

inductive Input where
  | read (n : Int)
  | key (c : UInt8)
  | copyout (ok : Bool)
  deriving DecidableEq

/-- Where a process stands.  In consoleread `got` has been copied out, so that
`n` is `target` less its length. -/
inductive Pc where
  | idle
  | rEnter (target : Int)
  | rLoop (target : Int) (got : List UInt8)
  | rWait (target : Int) (got : List UInt8)
  | rKilled (target : Int) (got : List UInt8)
  | rSleep (target : Int) (got : List UInt8)
  | rTake (target : Int) (got : List UInt8)
  | rChar (target : Int) (got : List UInt8) (c : UInt8)
  | rBack (target : Int) (got : List UInt8)
  | rCopy (target : Int) (got : List UInt8) (c : UInt8)
  | rDone (target : Int) (got : List UInt8)
  | rUnlock
  | iEnter (c : UInt8)
  | iSwitch (c : UInt8)
  | iKill
  | iErase (c : UInt8)
  | iStore (c : UInt8)
  | iCommit (c : UInt8)
  | iWake
  | iUnlock
  deriving DecidableEq

def call : Input → Pc
  | .read n => .rEnter n
  | .key c => .iEnter c
  | .copyout _ => .idle

def charTest (target : Int) (got : List UInt8) (c : UInt8) : Pc :=
  if c = CTRL_D then
    if target - got.length < target then .rBack target got else .rDone target got
  else .rCopy target got c

/-- either_copyout; `faults` if the destination may be unmapped. -/
def afterCopyout (faults : Bool) (target : Int) (got : List UInt8) (c : UInt8) : Input → Pc
  | .copyout true => if c = NL then .rDone target (got ++ [c]) else .rLoop target (got ++ [c])
  | .copyout false => if faults then .rDone target got else .rCopy target got c
  | _ => .rCopy target got c

def Cons.switch (x : Cons) (c : UInt8) : Cons × Pc :=
  if c = CTRL_P then (x.note (.key c), .iUnlock)
  else if c = CTRL_U then (x, .iKill)
  else if c = CTRL_H ∨ c = DEL then (x, .iErase c)
  else (x, .iStore c)

def Cons.killNext (x : Cons) : Cons × Pc :=
  if x.e ≠ x.w ∧ x.buf (Ring.slot (x.e - 1)) ≠ NL then (x.erase, .iKill)
  else (x.note (.key CTRL_U), .iUnlock)

def Cons.eraseOne (x : Cons) (c : UInt8) : Cons × Pc :=
  ((if x.e ≠ x.w then x.erase else x).note (.key c), .iUnlock)

def Cons.storeKey (x : Cons) (c : UInt8) : Cons × Pc :=
  if c ≠ 0 ∧ (x.e - x.r).toNat < INPUT_BUF_SIZE then (x.store (translate c), .iCommit c)
  else (x.note (.key c), .iUnlock)

def Cons.commitKey (x : Cons) (c : UInt8) : Cons × Pc :=
  if translate c = NL ∨ translate c = CTRL_D ∨ (x.e - x.r).toNat = INPUT_BUF_SIZE then
    (x.accept.note (.key c), .iWake)
  else (x.note (.key c), .iUnlock)

def code (faults : Bool) : Pc → Instr Cons Pc Chan Input
  | .idle => .access fun x _ i => (x, call i)
  -- consoleread
  | .rEnter target => .acquire (.rLoop target [])
  | .rLoop target got => .access fun x _ _ =>
    (x, if target - got.length > 0 then .rWait target got else .rDone target got)
  | .rWait target got => .access fun x _ _ =>
    (x, if x.r = x.w then .rKilled target got else .rTake target got)
  | .rKilled target got => .access fun x killed _ =>
    (x, if killed then .rUnlock else .rSleep target got)
  | .rSleep target got => .sleep .r (.rWait target got)
  | .rTake target got => .access fun x _ _ => (x.take, .rChar target got (x.buf (Ring.slot x.r)))
  | .rChar target got c => .access fun x _ _ => (x, charTest target got c)
  | .rBack target got => .access fun x _ _ => (x.putBack, .rDone target got)
  | .rCopy target got c => .access fun x _ i => (x, afterCopyout faults target got c i)
  | .rDone target got => .access fun x _ _ => (x.deliver target got, .rUnlock)
  | .rUnlock => .release .idle
  -- consoleintr
  | .iEnter c => .acquire (.iSwitch c)
  | .iSwitch c => .access fun x _ _ => x.switch c
  | .iKill => .access fun x _ _ => x.killNext
  | .iErase c => .access fun x _ _ => x.eraseOne c
  | .iStore c => .access fun x _ _ => x.storeKey c
  | .iCommit c => .access fun x _ _ => x.commitKey c
  | .iWake => .wakeup .r .iUnlock
  | .iUnlock => .release .idle

def prog (faults : Bool) : Program Cons Pc Chan Input where
  code := code faults
  env := fun _ _ => none

def held : Pc → Bool
  | .idle | .rEnter _ | .iEnter _ => false
  | _ => true

abbrev State (n : Nat) := Monitor.State n Cons Pc Chan

def RunWith {n : Nat} (faults : Bool) (ok : State n → Act n Input → Prop) (s : State n) : Prop :=
  Monitor.RunWith (prog faults) Cons.init .idle ok s

/-! ## §3. What an access does. -/

/-- The accesses of consoleread and consoleintr, one by one. -/
inductive Access (faults : Bool) (x : Cons) (k : Bool) : Pc → Cons → Pc → Prop where
  | call (i : Input) : Access faults x k .idle x (call i)
  | goesOn {target got} (hn : got.length < target) :
      Access faults x k (.rLoop target got) x (.rWait target got)
  | full {target got} (hn : target ≤ got.length) :
      Access faults x k (.rLoop target got) x (.rDone target got)
  | empty {target got} : Access faults x k (.rWait target got) x (.rKilled target got)
  | ready {target got} (hne : x.r ≠ x.w) :
      Access faults x k (.rWait target got) x (.rTake target got)
  | killed {target got} (hk : k = true) : Access faults x k (.rKilled target got) x .rUnlock
  | alive {target got} (hk : k = false) :
      Access faults x k (.rKilled target got) x (.rSleep target got)
  | take {target got} :
      Access faults x k (.rTake target got) x.take (.rChar target got (x.buf (Ring.slot x.r)))
  | eofFirst {target} : Access faults x k (.rChar target [] CTRL_D) x (.rDone target [])
  | eofLater {target got} (hgot : got ≠ []) :
      Access faults x k (.rChar target got CTRL_D) x (.rBack target got)
  | char {target got c} (hc : c ≠ CTRL_D) :
      Access faults x k (.rChar target got c) x (.rCopy target got c)
  | back {target got} : Access faults x k (.rBack target got) x.putBack (.rDone target got)
  | copied {target got c} (hc : c ≠ NL) :
      Access faults x k (.rCopy target got c) x (.rLoop target (got ++ [c]))
  | newline {target got} : Access faults x k (.rCopy target got NL) x (.rDone target (got ++ [NL]))
  | fault {target got c} (hf : faults = true) :
      Access faults x k (.rCopy target got c) x (.rDone target got)
  | copying {target got c} : Access faults x k (.rCopy target got c) x (.rCopy target got c)
  | done {target got} : Access faults x k (.rDone target got) (x.deliver target got) .rUnlock
  | list : Access faults x k (.iSwitch CTRL_P) (x.note (.key CTRL_P)) .iUnlock
  | kill : Access faults x k (.iSwitch CTRL_U) x .iKill
  | backspace {c} (hc : c = CTRL_H ∨ c = DEL) : Access faults x k (.iSwitch c) x (.iErase c)
  | plain {c} (hc : ordinary c = true) : Access faults x k (.iSwitch c) x (.iStore c)
  | killOne (he : x.e ≠ x.w) : Access faults x k .iKill x.erase .iKill
  | killEnd (he : x.e = x.w ∨ x.buf (Ring.slot (x.e - 1)) = NL) :
      Access faults x k .iKill (x.note (.key CTRL_U)) .iUnlock
  | erase {c} (he : x.e ≠ x.w) : Access faults x k (.iErase c) (x.erase.note (.key c)) .iUnlock
  | eraseNone {c} (he : x.e = x.w) : Access faults x k (.iErase c) (x.note (.key c)) .iUnlock
  | store {c} (hc : c ≠ 0) (hroom : (x.e - x.r).toNat < INPUT_BUF_SIZE) :
      Access faults x k (.iStore c) (x.store (translate c)) (.iCommit c)
  | drop {c} (hc : c = 0 ∨ INPUT_BUF_SIZE ≤ (x.e - x.r).toNat) :
      Access faults x k (.iStore c) (x.note (.key c)) .iUnlock
  | commit {c}
      (hc : translate c = NL ∨ translate c = CTRL_D ∨ (x.e - x.r).toNat = INPUT_BUF_SIZE) :
      Access faults x k (.iCommit c) (x.accept.note (.key c)) .iWake
  | typed {c}
      (hc : ¬ (translate c = NL ∨ translate c = CTRL_D ∨ (x.e - x.r).toNat = INPUT_BUF_SIZE)) :
      Access faults x k (.iCommit c) (x.note (.key c)) .iUnlock

section Accesses

variable {faults : Bool} (x : Cons) (k : Bool) (target : Int) (got : List UInt8) (c : UInt8)

theorem access_charTest : Access faults x k (.rChar target got c) x (charTest target got c) := by
  unfold charTest
  split
  · next hc =>
    subst hc
    split
    · next hlt =>
      apply Access.eofLater
      intro hgot
      rw [hgot, List.length_nil] at hlt
      omega
    · next hlt =>
      have hgot : got = [] := List.length_eq_zero_iff.mp (by omega)
      subst hgot
      exact .eofFirst
  · next hc => exact .char hc

theorem access_afterCopyout (i : Input) :
    Access faults x k (.rCopy target got c) x (afterCopyout faults target got c i) := by
  unfold afterCopyout
  split
  · split
    · next hc =>
      subst hc
      exact .newline
    · next hc => exact .copied hc
  · split
    · next hf => exact .fault hf
    · exact .copying
  · exact .copying

theorem access_switch : Access faults x k (.iSwitch c) (x.switch c).1 (x.switch c).2 := by
  unfold Cons.switch
  split
  · next hp =>
    subst hp
    exact .list
  · next hp =>
    split
    · next hu =>
      subst hu
      exact .kill
    · next hu =>
      split
      · next he => exact .backspace he
      · next he =>
        obtain ⟨hh, hd⟩ := not_or.mp he
        exact .plain (decide_eq_true ⟨hp, hu, hh, hd⟩)

theorem access_killNext : Access faults x k .iKill x.killNext.1 x.killNext.2 := by
  unfold Cons.killNext
  split
  · next h => exact .killOne h.1
  · next h =>
    rw [not_and_or, not_not, not_not] at h
    exact .killEnd h

theorem access_eraseOne : Access faults x k (.iErase c) (x.eraseOne c).1 (x.eraseOne c).2 := by
  unfold Cons.eraseOne
  by_cases he : x.e = x.w
  · rw [if_neg (not_not.mpr he)]
    exact .eraseNone he
  · rw [if_pos he]
    exact .erase he

theorem access_storeKey : Access faults x k (.iStore c) (x.storeKey c).1 (x.storeKey c).2 := by
  unfold Cons.storeKey
  split
  · next h => exact .store h.1 h.2
  · next h =>
    rw [not_and_or, not_not, Nat.not_lt] at h
    exact .drop h

theorem access_commitKey : Access faults x k (.iCommit c) (x.commitKey c).1 (x.commitKey c).2 := by
  unfold Cons.commitKey
  split
  · next h => exact .commit h
  · next h => exact .typed h

end Accesses

theorem access_of_code {faults : Bool} {l : Pc} {f : Cons → Bool → Input → Cons × Pc}
    (hc : (prog faults).code l = .access f) (x : Cons) (k : Bool) (i : Input) :
    Access faults x k l (f x k i).1 (f x k i).2 := by
  cases l <;> cases hc
  case idle => exact .call i
  case rLoop target got =>
    show Access faults x k _ x (if _ then _ else _)
    split
    · next hn => exact .goesOn (by omega)
    · next hn => exact .full (by omega)
  case rWait target got =>
    show Access faults x k _ x (if x.r = x.w then _ else _)
    split
    · exact .empty
    · next hne => exact .ready hne
  case rKilled target got =>
    cases k with
    | true => exact .killed rfl
    | false => exact .alive rfl
  case rTake => exact .take
  case rChar => exact access_charTest x k _ _ _
  case rBack => exact .back
  case rCopy => exact access_afterCopyout x k _ _ _ i
  case rDone => exact .done
  case iSwitch => exact access_switch x k _
  case iKill => exact access_killNext x k
  case iErase => exact access_eraseOne x k _
  case iStore => exact access_storeKey x k _
  case iCommit => exact access_commitKey x k _

theorem disciplined (faults : Bool) : Disciplined (prog faults) held where
  access l f hc x k i := by
    have h := access_of_code hc x k i
    generalize (f x k i).1 = x' at h
    generalize (f x k i).2 = l' at h
    cases h with
    | call i => cases i <;> rfl
    | _ => rfl
  acquire l l' hc := by
    cases l <;> cases hc <;> exact ⟨rfl, rfl⟩
  release l l' hc := by
    cases l <;> cases hc <;> exact ⟨rfl, rfl⟩
  sleep l c l' hc := by
    cases l <;> cases hc
    exact ⟨rfl, rfl⟩
  wakeup l c l' hc := by
    cases l <;> cases hc
    rfl

end Xv6.Console
