/-
  Xv6.Console.Editor — what the console is for.

  Keys change the line being typed until it is accepted as a whole; what has been accepted
  is a stream that reads consume, up to a newline or ^D.
-/
import Mathlib

namespace Xv6.Console

open List

abbrev INPUT_BUF_SIZE : Nat := 128

/-! ## §1. Keys. -/

abbrev NL : UInt8 := 10

abbrev CR : UInt8 := 13

abbrev CTRL_D : UInt8 := 4

abbrev CTRL_P : UInt8 := 16

abbrev CTRL_U : UInt8 := 21

abbrev CTRL_H : UInt8 := 8

abbrev DEL : UInt8 := 0x7f

/-- `(c == '\r') ? '\n' : c`. -/
def translate (c : UInt8) : UInt8 := if c = CR then NL else c

/-! ## §2. The editor. -/

structure Editor where
  accepted : List UInt8
  taken : Nat
  line : List UInt8
  deriving Repr, DecidableEq

namespace Editor

def init : Editor := { accepted := [], taken := 0, line := [] }

def unread (ed : Editor) : List UInt8 := ed.accepted.drop ed.taken

def insert (ed : Editor) (c : UInt8) : Editor :=
  if c = NL ∨ c = CTRL_D ∨ ed.unread.length + (ed.line.length + 1) = INPUT_BUF_SIZE then
    { ed with accepted := ed.accepted ++ (ed.line ++ [c]), line := [] }
  else { ed with line := ed.line ++ [c] }

def key (ed : Editor) (c : UInt8) : Editor :=
  if c = CTRL_P then ed
  else if c = CTRL_U then { ed with line := [] }
  else if c = CTRL_H ∨ c = DEL then { ed with line := ed.line.dropLast }
  else if c = 0 ∨ INPUT_BUF_SIZE ≤ ed.unread.length + ed.line.length then
    -- no room: the key is dropped
    ed
  else ed.insert (translate c)

end Editor

inductive Event where
  | key (c : UInt8)
  | take
  | putBack
  deriving Repr, DecidableEq

def Editor.step (ed : Editor) : Event → Editor
  | .key c => ed.key c
  | .take => { ed with taken := ed.taken + 1 }
  | .putBack => { ed with taken := ed.taken - 1 }

def replay (events : List Event) : Editor := events.foldl Editor.step .init

@[simp] theorem replay_concat (events : List Event) (ev : Event) :
    replay (events ++ [ev]) = (replay events).step ev := by
  simp [replay]

/-- The key goes into the line. -/
def ordinary (c : UInt8) : Bool := c ≠ CTRL_P ∧ c ≠ CTRL_U ∧ c ≠ CTRL_H ∧ c ≠ DEL

namespace Editor

variable {ed : Editor} {c : UInt8}

theorem key_ordinary (hc : ordinary c = true) : ed.key c =
    if c = 0 ∨ INPUT_BUF_SIZE ≤ ed.unread.length + ed.line.length then ed
    else ed.insert (translate c) := by
  obtain ⟨hp, hu, hh, hd⟩ := of_decide_eq_true hc
  rw [key, if_neg hp, if_neg hu, if_neg (not_or.mpr ⟨hh, hd⟩)]

theorem key_erase (hc : c = CTRL_H ∨ c = DEL) :
    ed.key c = { ed with line := ed.line.dropLast } := by
  rcases hc with rfl | rfl <;> rfl

theorem key_accepted (ed : Editor) (c : UInt8) :
    (ed.key c).taken = ed.taken ∧ ∃ t, (ed.key c).accepted = ed.accepted ++ t := by
  have hsame : ∃ t, ed.accepted = ed.accepted ++ t := ⟨[], (append_nil _).symm⟩
  unfold key
  split
  · exact ⟨rfl, hsame⟩
  · split
    · exact ⟨rfl, hsame⟩
    · split
      · exact ⟨rfl, hsame⟩
      · split
        · exact ⟨rfl, hsame⟩
        · unfold insert
          split
          · exact ⟨rfl, _, rfl⟩
          · exact ⟨rfl, hsame⟩

end Editor

/-! ## §3. Reads. -/

/-- What a read of `n` bytes returns, and the rest of the stream; `none` if it has to wait. -/
def cutFrom : Bool → Nat → List UInt8 → Option (List UInt8 × List UInt8)
  | _, 0, s => some ([], s)
  | _, _ + 1, [] => none
  | first, n + 1, c :: s =>
    if c = CTRL_D then some ([], if first then s else c :: s)
    else if c = NL then some ([c], s)
    else (cutFrom false n s).map fun out => (c :: out.1, out.2)

def cut (n : Int) (s : List UInt8) : Option (List UInt8 × List UInt8) := cutFrom true n.toNat s

/-- Reads of these sizes, one after the other. -/
def cuts : List Int → List UInt8 → Option (List (List UInt8) × List UInt8)
  | [], s => some ([], s)
  | n :: ns, s => (cut n s).bind fun out => (cuts ns out.2).map fun outs => (out.1 :: outs.1, outs.2)

section Cuts

variable {first : Bool} {n : Nat} {s t r rest : List UInt8} {c : UInt8}

theorem cutFrom_append (h : cutFrom first n s = some (r, rest)) (t : List UInt8) :
    cutFrom first n (s ++ t) = some (r, rest ++ t) := by
  induction n generalizing first s r with
  | zero =>
    cases h
    rfl
  | succ n ih =>
    cases s with
    | nil => cases h
    | cons c s =>
      rw [cutFrom] at h
      rw [cons_append, cutFrom]
      split at h
      · next hd =>
        cases h
        rw [if_pos hd]
        cases first <;> rfl
      · next hd =>
        rw [if_neg hd]
        split at h
        · next hnl =>
          cases h
          rw [if_pos hnl]
        · next hnl =>
          obtain ⟨out, hout, he⟩ := Option.map_eq_some_iff.mp h
          cases he
          rw [if_neg hnl, ih hout]
          rfl

theorem cuts_append {ns : List Int} {rs : List (List UInt8)} (h : cuts ns s = some (rs, rest))
    (t : List UInt8) : cuts ns (s ++ t) = some (rs, rest ++ t) := by
  induction ns generalizing s rs with
  | nil =>
    cases h
    rfl
  | cons n ns ih =>
    obtain ⟨out, hout, h⟩ := Option.bind_eq_some_iff.mp h
    obtain ⟨outs, houts, he⟩ := Option.map_eq_some_iff.mp h
    cases he
    rw [cuts, show cut n (s ++ t) = _ from cutFrom_append hout t]
    show (cuts ns (out.2 ++ t)).map _ = _
    rw [ih houts]
    rfl

theorem cuts_concat {ns : List Int} {rs : List (List UInt8)} {m : Int} {rest' : List UInt8}
    (h : cuts ns s = some (rs, rest)) (hm : cut m rest = some (r, rest')) :
    cuts (ns ++ [m]) s = some (rs ++ [r], rest') := by
  induction ns generalizing s rs with
  | nil =>
    cases h
    rw [nil_append, cuts, hm]
    rfl
  | cons n ns ih =>
    obtain ⟨out, hout, h⟩ := Option.bind_eq_some_iff.mp h
    obtain ⟨outs, houts, he⟩ := Option.map_eq_some_iff.mp h
    cases he
    rw [cons_append, cuts, hout]
    show (cuts (ns ++ [m]) out.2).map _ = _
    rw [ih houts]
    rfl

/-- Bytes at which no read stops. -/
def Plain (s : List UInt8) : Prop := ∀ c ∈ s, c ≠ CTRL_D ∧ c ≠ NL

theorem cutFrom_plain {got : List UInt8} (hgot : Plain got) (first : Bool) (n : Nat)
    (s : List UInt8) : cutFrom first (got.length + n) (got ++ s) =
      (cutFrom (first && got.isEmpty) n s).map fun out => (got ++ out.1, out.2) := by
  induction got generalizing first with
  | nil =>
    rw [isEmpty_nil, Bool.and_true, length_nil, Nat.zero_add, nil_append]
    cases cutFrom first n s <;> rfl
  | cons c got ih =>
    obtain ⟨hd, hnl⟩ := hgot c mem_cons_self
    have hrest : Plain got := fun b hb => hgot b (mem_cons_of_mem c hb)
    rw [length_cons, Nat.add_right_comm, cons_append, cutFrom, if_neg hd, if_neg hnl,
      ih hrest, isEmpty_cons, Bool.and_false, Bool.false_and, Option.map_map]
    rfl

/-- A read that stops early stops in front of ^D, and the next one returns nothing. -/
theorem cut_before_eof {m : Int} (h : cut m s = some (r, rest)) (hr : r ≠ [])
    (hshort : r.length < m.toNat) (hnl : ∀ c ∈ r, c ≠ NL) {m' : Int} (hm' : 0 < m') :
    ∃ rest', rest = CTRL_D :: rest' ∧ cut m' rest = some ([], rest') := by
  have hgeneral : ∀ (k : Nat) (first : Bool) (s r : List UInt8),
      cutFrom first k s = some (r, rest) → (first = true → r ≠ []) → r.length < k →
      (∀ c ∈ r, c ≠ NL) → ∃ rest', rest = CTRL_D :: rest' := by
    intro k
    induction k with
    | zero => exact fun first s r _ _ hlt => absurd hlt (Nat.not_lt_zero _)
    | succ k ih =>
      intro first s r h hfirst hlt hno
      cases s with
      | nil => cases h
      | cons c s =>
        rw [cutFrom] at h
        split at h
        · next hd =>
          cases h
          cases first with
          | true => exact absurd rfl (hfirst rfl)
          | false => exact ⟨s, by rw [hd]; rfl⟩
        · split at h
          · next hc =>
            cases h
            exact absurd hc (hno c mem_cons_self)
          · obtain ⟨out, hout, he⟩ := Option.map_eq_some_iff.mp h
            cases he
            exact ih false s out.1 hout nofun (Nat.lt_of_succ_lt_succ hlt)
              fun b hb => hno b (mem_cons_of_mem c hb)
  obtain ⟨rest', he⟩ := hgeneral _ true s r h (fun _ => hr) hshort hnl
  refine ⟨rest', he, ?_⟩
  obtain ⟨k, hk⟩ : ∃ k, m'.toNat = k + 1 := ⟨m'.toNat - 1, by omega⟩
  rw [he, cut, hk, cutFrom, if_pos rfl]
  rfl

end Cuts

end Xv6.Console
