/-
  Xv6.Pipe.BadReads — reads from a pipe into memory that may be unmapped.

  piperead takes a byte out of the ring before it knows whether copyout succeeds.
-/
import Xv6.Pipe.Fifo

namespace Xv6.Pipe

open Lib

/-! ## §1. The loop of piperead. -/

/-- The turns of the loop; `ok i` says whether copyout to `addr + i` succeeds. -/
def Pipe.copyLoop (ok : Nat → Bool) (n : Int) : Nat → Pipe → List UInt8 → Pipe × List UInt8
  | 0, x, got => (x, got)
  | fuel + 1, x, got =>
    if got.length < n ∧ ¬ x.isEmpty then
      if ok got.length then copyLoop ok n fuel x.advance (got ++ [x.front]) else (x.advance, got)
    else (x, got)

/-- The pipe behind the loop, and what was copied out; the call returns its length. -/
def Pipe.piperead (x : Pipe) (n : Int) (ok : Nat → Bool) : Pipe × List UInt8 :=
  copyLoop ok n n.toNat x []

def Pipe.available (x : Pipe) : Nat := (x.nwrite - x.nread).toNat

/-- Every byte that the call takes can be stored. -/
def Pipe.Writable (x : Pipe) (n : Int) (ok : Nat → Bool) : Prop :=
  ∀ j : Nat, j < n → j < x.available → ok j = true

section Loop

variable {ok : Nat → Bool} {n : Int}

theorem available_advance {x : Pipe} (h : ¬ x.isEmpty) : x.advance.available + 1 = x.available := by
  have hne : x.nread ≠ x.nwrite := fun he => h (decide_eq_true he)
  show (x.nwrite - (x.nread + 1)).toNat + 1 = (x.nwrite - x.nread).toNat
  bv_omega

theorem copyLoop_nread_iff (fuel : Nat) (x : Pipe) (got : List UInt8) {r : Pipe × List UInt8}
    (hr : Pipe.copyLoop ok n fuel x got = r) (hfuel : n ≤ got.length + fuel) :
    r.1.nread + .ofNat 32 got.length = x.nread + .ofNat 32 r.2.length ↔
      ∀ j : Nat, got.length ≤ j → j < n → j < got.length + x.available → ok j = true := by
  induction fuel generalizing x got with
  | zero =>
    subst hr
    exact iff_of_true rfl fun j hle hlt _ => by omega
  | succ fuel ih =>
    unfold Pipe.copyLoop at hr
    split_ifs at hr with hmore hok
    · have hlen : (got ++ [x.front]).length = got.length + 1 := by simp
      have hrest := ih x.advance _ hr (by rw [hlen]; omega)
      have hone : x.advance.nread = x.nread + 1 := rfl
      have havail := available_advance hmore.2
      rw [hlen, hone, BitVec.ofNat_add] at hrest
      refine Iff.trans ?_ (hrest.trans ?_)
      · constructor <;> intro h <;> bv_omega
      · constructor
        · intro h j hle hlt hj
          rcases Nat.eq_or_lt_of_le hle with rfl | hlt'
          · exact hok
          · exact h j hlt' hlt (by omega)
        · exact fun h j hle hlt hj => h j (by omega) hlt (by omega)
    · subst hr
      have havail := available_advance hmore.2
      refine iff_of_false ?_ fun h => hok (h got.length le_rfl hmore.1 (by omega))
      show x.nread + 1 + _ ≠ x.nread + _
      bv_omega
    · subst hr
      refine iff_of_true rfl fun j hle hlt hj => ?_
      by_cases hempty : x.isEmpty
      · have he : x.nread = x.nwrite := of_decide_eq_true hempty
        rw [Pipe.available, he, BitVec.sub_self] at hj
        exact absurd hj (by simpa using hle)
      · exact absurd ⟨by omega, hempty⟩ hmore

theorem copyLoop_fifo (fuel : Nat) (x : Pipe) (got : List UInt8) {r : Pipe × List UInt8}
    (hr : Pipe.copyLoop ok n fuel x got = r)
    (hok : ∀ j : Nat, got.length ≤ j → j < n → j < got.length + x.available → ok j = true)
    (h : Fifo x got) : Fifo r.1 r.2 := by
  induction fuel generalizing x got with
  | zero =>
    subst hr
    exact h
  | succ fuel ih =>
    unfold Pipe.copyLoop at hr
    split_ifs at hr with hmore hcopied
    · have havail := available_advance hmore.2
      refine ih x.advance _ hr (fun j hle hlt hj => ?_) (h.advance (Bool.eq_false_iff.mpr hmore.2))
      rw [List.length_append, List.length_singleton] at hle hj
      exact hok j (by omega) hlt (by omega)
    · have havail := available_advance hmore.2
      exact absurd (hok got.length le_rfl hmore.1 (by omega)) hcopied
    · subst hr
      exact h

end Loop

/-! ## §2. Sequences of calls. -/

/-- A read with its buffer, or a byte that a writer stores. -/
inductive Event where
  | read (n : Int) (ok : Nat → Bool)
  | write (ch : UInt8)

def Pipe.event (x : Pipe) : Event → Pipe
  | .read n ok => (x.piperead n ok).1.deliver (x.piperead n ok).2
  | .write ch => if x.isFull then x else x.store ch

/-- A read advances `nread` by what it returns. -/
def Event.Exact (x : Pipe) : Event → Prop
  | .read n ok => (x.piperead n ok).1.nread = x.nread + .ofNat 32 (x.piperead n ok).2.length
  | .write _ => True

def Event.Good (x : Pipe) : Event → Prop
  | .read n ok => x.Writable n ok
  | .write _ => True

/-- `P` holds of every event, in the state in which it happens. -/
def Along (P : Pipe → Event → Prop) : Pipe → List Event → Prop
  | _, [] => True
  | x, e :: l => P x e ∧ Along P (x.event e) l

theorem exact_iff_good (x : Pipe) (e : Event) : e.Exact x ↔ e.Good x := by
  cases e with
  | write ch => exact Iff.rfl
  | read n ok =>
    have hrun : Pipe.copyLoop ok n n.toNat x [] = x.piperead n ok := rfl
    have hloop := copyLoop_nread_iff n.toNat x [] hrun (by rw [List.length_nil]; omega)
    simpa [Event.Exact, Event.Good, Pipe.Writable] using hloop

theorem Fifo.event {x : Pipe} {e : Event} (h : Fifo x []) (he : e.Good x) :
    Fifo (x.event e) [] := by
  cases e with
  | read n ok =>
    have hread : Fifo (x.piperead n ok).1 (x.piperead n ok).2 :=
      copyLoop_fifo n.toNat x [] rfl (fun j _ hlt hj => he j hlt (by simpa using hj)) h
    exact hread.deliver
  | write ch =>
    show Fifo (if x.isFull then x else x.store ch) []
    split
    · exact h
    · next hroom => exact h.store (Bool.eq_false_iff.mpr hroom) ch

/-- **When reads lose nothing.** In every sequence of reads and writes each read advances `nread` by
what it returns exactly if its buffer can hold what it takes; then what the reads deliver and what
is left in the ring is what was written. -/
theorem reads_exact_iff (x : Pipe) (l : List Event) :
    (Along Event.Exact x l ↔ Along Event.Good x l) ∧
      (Along Event.Good x l → Fifo x [] → Fifo (l.foldl Pipe.event x) []) := by
  induction l generalizing x with
  | nil => exact ⟨Iff.rfl, fun _ h => h⟩
  | cons e l ih =>
    obtain ⟨hiff, hfifo⟩ := ih (x.event e)
    exact ⟨and_congr (exact_iff_good x e) hiff, fun hl h => hfifo hl.2 (h.event hl.1)⟩

/-- Both bytes that were written arrive. -/
theorem reads_exact_both : Fifo ([.write 97, .write 98, .read 2 fun _ => true].foldl Pipe.event
    (Pipe.init fun _ => 0)) [] := by
  refine (reads_exact_iff _ _).2 ⟨trivial, trivial, fun j _ _ => rfl, trivial⟩ ?_
  exact fifo_init _

/-- The first read gets a bad address: it returns 0, and the next one starts at the second byte. -/
theorem failed_read_loses_byte :
    ([.write 97, .write 98, .read 2 fun _ => false, .read 2 fun _ => true].foldl Pipe.event
      (Pipe.init fun _ => 0)).reads = [[], [98]] := by
  decide +kernel

end Xv6.Pipe
