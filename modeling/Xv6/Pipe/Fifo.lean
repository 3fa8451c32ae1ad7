/-
  Xv6.Pipe.Fifo — a pipe is a FIFO queue.

  The bytes that have been accepted are those that completed reads have delivered,
  then those that the reader holding the lock has taken, then those in the buffer.
-/
import Xv6.Pipe.Machine

namespace Xv6.Pipe

open Lib Lib.Monitor

/-! ## §1. The queue. -/

def Fifo (x : Pipe) (taken : List UInt8) : Prop :=
  ∃ window, x.accepted = x.reads.flatten ++ taken ++ window ∧
    Ring.Holds x.data x.nread window x.nwrite

section Queue

variable {x : Pipe} {taken : List UInt8}

theorem pipesize_lt : PIPESIZE < 2 ^ 32 := by decide

theorem pipesize_dvd : PIPESIZE ∣ 2 ^ 32 := by decide

theorem fifo_init (junk : Fin PIPESIZE → UInt8) : Fifo (Pipe.init junk) [] :=
  ⟨[], rfl, Ring.holds_nil⟩

section

variable (h : Fifo x taken)

include h

theorem Fifo.bound : (x.nwrite - x.nread).toNat ≤ PIPESIZE := by
  obtain ⟨window, _, hring⟩ := h
  rw [hring.sub_toNat pipesize_lt]
  exact hring.fits

theorem Fifo.delivered : x.reads.flatten <+: x.accepted := by
  obtain ⟨window, hacc, _⟩ := h
  rw [hacc, List.append_assoc]
  exact List.prefix_append _ _

theorem Fifo.store (hroom : x.isFull = false) (ch : UInt8) : Fifo (x.store ch) taken := by
  obtain ⟨window, hacc, hring⟩ := h
  have hne : window.length ≠ PIPESIZE := by
    intro he
    have hfull := (hring.full_iff pipesize_lt).mpr he
    exact absurd hfull (of_decide_eq_false hroom)
  have hlen : window.length < PIPESIZE := Nat.lt_of_le_of_ne hring.fits hne
  refine ⟨window ++ [ch], ?_, hring.push pipesize_dvd hlen ch⟩
  show x.accepted ++ [ch] = x.reads.flatten ++ taken ++ (window ++ [ch])
  rw [hacc, List.append_assoc]

theorem Fifo.advance (hne : x.isEmpty = false) : Fifo x.advance (taken ++ [x.front]) := by
  obtain ⟨window, hacc, hring⟩ := h
  cases window with
  | nil =>
    have hempty := (hring.empty_iff pipesize_lt).mpr rfl
    exact absurd hempty (of_decide_eq_false hne)
  | cons y window =>
    obtain ⟨hy, hring'⟩ := hring.pop
    refine ⟨window, ?_, hring'⟩
    show x.accepted = x.reads.flatten ++ (taken ++ [x.data (Ring.slot x.nread)]) ++ window
    rw [hy, hacc]
    simp

theorem Fifo.deliver : Fifo (x.deliver taken) [] := by
  obtain ⟨window, hacc, hring⟩ := h
  refine ⟨window, ?_, hring⟩
  show x.accepted = (x.reads ++ [taken]).flatten ++ [] ++ window
  rw [hacc]
  simp

theorem Fifo.shut (writable : Bool) : Fifo (x.shut writable) taken := by
  cases writable <;> exact h

end

end Queue

/-! ## §2. The calls. -/

def Pc.taken : Pc → List UInt8
  | .rLoop _ got | .rDone got | .rReturn got => got
  | .rCopy _ got ch => got ++ [ch]
  | _ => []

def Pc.room : Pc → Bool
  | .wCopy _ _ _ | .wStore _ _ _ _ => true
  | _ => false

def Queued (l : Pc) (x : Pipe) (_ : Bool) : Prop :=
  Fifo x l.taken ∧ (l.room = true → x.isFull = false)

/-- A point that asks for no room and has taken as much. -/
theorem Queued.goto {l l' : Pc} {x : Pipe} {k : Bool} (h : Queued l x k)
    (htaken : l'.taken = l.taken) (hroom : l'.room = false) : Queued l' x k := by
  refine ⟨?_, ?_⟩
  · rw [htaken]
    exact h.1
  · rw [hroom]
    exact fun h => by cases h

theorem queued_access {x x' : Pipe} {killed : Bool} {l l' : Pc}
    (ha : Access false killed x l x' l') (h : Queued l x killed) : Queued l' x' killed := by
  cases ha with
  | room hroom => exact ⟨h.1, fun _ => hroom⟩
  | copyin => exact ⟨h.1, fun _ => h.2 rfl⟩
  | store => exact ⟨h.1.store (h.2 rfl) _, nofun⟩
  | take hne => exact ⟨h.1.advance hne, nofun⟩
  | deliver => exact ⟨h.1.deliver, nofun⟩
  | shut => exact ⟨h.1.shut _, nofun⟩
  | badSource hf | badTarget hf => cases hf
  | same => exact h
  | _ => exact h.goto rfl rfl

theorem queued_rule {n : Nat} :
    Rule (prog false) held (fun x => Fifo x []) Queued (fun _ : State n => True) where
  access l f hc hheld x killed inp h := queued_access (access_of_code x killed inp hc hheld) h
  outside s p f i _ _ hc hheld := by
    generalize s.pc p = l at hc hheld
    cases l <;> cases hc <;> first | exact ⟨id, fun _ _ h => h⟩ | cases hheld
  env x i x' hx := by cases hx
  acquire l l' hc x killed h := by
    cases l <;> cases hc <;> exact ⟨h, fun hroom => by cases hroom⟩
  release l l' hc x killed h := by
    cases l <;> cases hc <;> exact h.1
  sleep l c l' hc x killed := by
    cases l <;> cases hc <;> exact ⟨fun h => h.1, fun h => ⟨h, fun hroom => by cases hroom⟩⟩
  wakeup l c l' hc x killed h := by
    cases l <;> cases hc <;> exact h.goto rfl rfl

/-! ## §3. Runs. -/

def AnyAct {n : Nat} (_ : State n) (_ : Act n Input) : Prop := True

instance {n : Nat} (s : State n) (a : Act n Input) : Decidable (AnyAct s a) :=
  inferInstanceAs (Decidable True)

theorem run_fifo {n : Nat} {s : State n} {ok : State n → Act n Input → Prop}
    (h : RunWith false ok s) : ∃ taken, Fifo s.shared taken := by
  obtain ⟨junk, h⟩ := h
  have hinv := run_ruleInv (disciplined false) queued_rule rfl (fifo_init junk)
    (fun _ _ _ hq => hq) (fun _ _ => trivial) h
  cases hlock : s.lock with
  | none => exact ⟨_, hinv.free hlock⟩
  | some p => exact ⟨_, (hinv.holder p hlock).1⟩

/-- **Pipes are lossless FIFO queues.** In every run, with any number of processes, the counters are
at most PIPESIZE apart, and what the reads have delivered is a prefix of what the writers have
stored. -/
theorem pipe_fifo {n : Nat} {s : State n} (h : RunWith false AnyAct s) :
    (s.shared.nwrite - s.shared.nread).toNat ≤ PIPESIZE ∧
      s.shared.reads.flatten <+: s.shared.accepted := by
  obtain ⟨taken, hfifo⟩ := run_fifo h
  exact ⟨hfifo.bound, hfifo.delivered⟩

def steps {n : Nat} (p : Fin n) (inputs : List Input) : List (Act n Input) :=
  inputs.map (Act.go p)

/-- Process 0 writes two bytes, then process 1 reads up to five. -/
def writeThenRead : List (Act 2 Input) :=
  let go := Input.copyout true
  steps 0 ([.write 2, go, go, go, .copyin (some 104), go, go, go, .copyin (some 105)] ++
      List.replicate 7 go) ++
    steps 1 (.read 5 :: List.replicate 13 go)

theorem pipe_fifo_writeThenRead : ∃ s : State 2, RunWith false AnyAct s ∧
    s.shared.reads = [[104, 105]] ∧ [104, 105] <+: s.shared.accepted := by
  have hacts : (runActs (prog false) AnyAct (start (Pipe.init fun _ => 0) .idle) writeThenRead).any
      (fun s : State 2 => s.shared.reads = [[104, 105]]) = true := by
    decide +kernel
  obtain ⟨s, hs, htest⟩ := exists_run_runActs hacts
  have hreads : s.shared.reads = [[104, 105]] := of_decide_eq_true htest
  have hrun : RunWith false AnyAct s := ⟨_, hs⟩
  have hfifo := (pipe_fifo hrun).2
  rw [hreads] at hfifo
  exact ⟨s, hrun, hreads, hfifo⟩

end Xv6.Pipe
