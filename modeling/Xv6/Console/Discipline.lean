/-
  Xv6.Console.Discipline — the three indices and the line editor.

  While `cons.lock` is free, the cells from r to w hold what has been accepted and not read,
  and those from w to e the line being typed.
-/
import Xv6.Console.Machine

namespace Xv6.Console

open Lib Lib.Monitor List

/-! ## §1. The buffer. -/

structure Rep (x : Cons) (ed : Editor) : Prop where
  unread : Ring.Segment x.buf x.r ed.unread x.w
  typed : Ring.Segment x.buf x.w ed.line x.e
  fits : ed.unread.length + ed.line.length ≤ INPUT_BUF_SIZE
  bounded : ed.taken ≤ ed.accepted.length

namespace Rep

variable {x : Cons} {ed : Editor} {c : UInt8}

section

variable (h : Rep x ed)

include h

theorem holds : Ring.Holds x.buf x.r (ed.unread ++ ed.line) x.e := by
  refine ⟨h.unread.append h.typed, ?_⟩
  rw [length_append]
  exact h.fits

theorem used : (x.e - x.r).toNat = ed.unread.length + ed.line.length := by
  rw [h.holds.sub_toNat (by decide), length_append]

theorem holds_unread : Ring.Holds x.buf x.r ed.unread x.w :=
  ⟨h.unread, (Nat.le_add_right _ _).trans h.fits⟩

theorem holds_line : Ring.Holds x.buf x.w ed.line x.e :=
  ⟨h.typed, (Nat.le_add_left _ _).trans h.fits⟩

theorem line_nil_iff : x.e = x.w ↔ ed.line = [] := by
  rw [← h.holds_line.empty_iff (by decide)]
  exact eq_comm

/-- **The indices keep their order**, and the buffer is never too full. -/
theorem order : (x.w - x.r).toNat ≤ (x.e - x.r).toNat ∧ (x.e - x.r).toNat ≤ INPUT_BUF_SIZE := by
  rw [h.used, h.holds_unread.sub_toNat (by decide)]
  exact ⟨Nat.le_add_right _ _, h.fits⟩

theorem store (hroom : (x.e - x.r).toNat < INPUT_BUF_SIZE) (c : UInt8) :
    Rep (x.store c) { ed with line := ed.line ++ [c] } := by
  rw [h.used] at hroom
  have hlen : (ed.unread ++ ed.line).length < INPUT_BUF_SIZE := by
    rw [length_append]
    exact hroom
  have hpush := (h.holds.push (by decide) hlen c).segment
  rw [append_assoc] at hpush
  obtain ⟨m, hunread, hline⟩ := hpush.split
  have hm : m = x.w := by
    rw [hunread.end_eq, h.unread.end_eq]
  rw [hm] at hunread hline
  refine ⟨hunread, hline, ?_, h.bounded⟩
  show ed.unread.length + (ed.line ++ [c]).length ≤ INPUT_BUF_SIZE
  rw [length_append, length_singleton]
  omega

theorem last (hne : ed.line ≠ []) : Ring.Segment x.buf x.w ed.line.dropLast (x.e - 1) ∧
      x.buf (Ring.slot (x.e - 1)) = ed.line.getLast hne := by
  have htyped := h.typed
  rw [← dropLast_append_getLast hne] at htyped
  exact htyped.unpush

theorem erase (he : x.e ≠ x.w) : Rep x.erase { ed with line := ed.line.dropLast } := by
  have hne : ed.line ≠ [] := fun hnil => he (h.line_nil_iff.mpr hnil)
  refine ⟨h.unread, (h.last hne).1, ?_, h.bounded⟩
  show ed.unread.length + ed.line.dropLast.length ≤ INPUT_BUF_SIZE
  have hfits := h.fits
  rw [length_dropLast]
  omega

theorem accept : Rep x.accept { ed with accepted := ed.accepted ++ ed.line, line := [] } := by
  have hunread : (ed.accepted ++ ed.line).drop ed.taken = ed.unread ++ ed.line :=
    drop_append_of_le_length h.bounded
  refine ⟨?_, rfl, ?_, ?_⟩
  · show Ring.Segment x.buf x.r ((ed.accepted ++ ed.line).drop ed.taken) x.e
    rw [hunread]
    exact h.unread.append h.typed
  · show ((ed.accepted ++ ed.line).drop ed.taken).length + 0 ≤ INPUT_BUF_SIZE
    rw [hunread, length_append]
    exact h.fits
  · show ed.taken ≤ (ed.accepted ++ ed.line).length
    rw [length_append]
    exact h.bounded.trans (Nat.le_add_right _ _)

theorem take (hne : x.r ≠ x.w) : Rep x.take { ed with taken := ed.taken + 1 } ∧
      ed.unread = x.buf (Ring.slot x.r) :: ed.accepted.drop (ed.taken + 1) := by
  have hunread : ed.unread ≠ [] := fun hnil =>
    hne ((h.holds_unread.empty_iff (by decide)).mpr hnil)
  obtain ⟨c, rest, hcons⟩ := exists_cons_of_ne_nil hunread
  have hseg := h.unread
  rw [hcons] at hseg
  have hrest : ed.accepted.drop (ed.taken + 1) = rest := by
    rw [← tail_drop]
    exact congrArg List.tail hcons
  have hfits := h.fits
  rw [hcons, length_cons] at hfits
  refine ⟨⟨?_, h.typed, ?_, ?_⟩, ?_⟩
  · show Ring.Segment x.buf (x.r + 1) (ed.accepted.drop (ed.taken + 1)) x.w
    rw [hrest]
    exact hseg.2
  · show (ed.accepted.drop (ed.taken + 1)).length + ed.line.length ≤ INPUT_BUF_SIZE
    rw [hrest]
    omega
  · have hlen : ed.unread.length = rest.length + 1 := by
      rw [hcons, length_cons]
    rw [Editor.unread, length_drop] at hlen
    show ed.taken + 1 ≤ ed.accepted.length
    omega
  · rw [hrest, hseg.1]
    exact hcons

theorem putBack (hcell : x.buf (Ring.slot (x.r - 1)) = c)
    (hunread : ed.accepted.drop (ed.taken - 1) = c :: ed.unread)
    (hroom : ed.unread.length + ed.line.length < INPUT_BUF_SIZE) :
    Rep x.putBack { ed with taken := ed.taken - 1 } := by
  refine ⟨?_, h.typed, ?_, (Nat.sub_le _ _).trans h.bounded⟩
  · show Ring.Segment x.buf (x.r - 1) (ed.accepted.drop (ed.taken - 1)) x.w
    rw [hunread]
    refine ⟨hcell, ?_⟩
    rw [BitVec.sub_add_cancel]
    exact h.unread
  · show (ed.accepted.drop (ed.taken - 1)).length + ed.line.length ≤ INPUT_BUF_SIZE
    rw [hunread, length_cons]
    omega

end

end Rep

/-! ## §2. What the holder of the lock knows. -/

/-- The console stands for its editor, whose line has no newline in it. -/
structure Tidy (x : Cons) : Prop where
  rep : Rep x x.editor
  noNewline : NL ∉ x.editor.line

/-- A reader has just taken `c`, and may put it back. -/
structure Took (x : Cons) (c : UInt8) : Prop where
  tidy : Tidy x
  cell : x.buf (Ring.slot (x.r - 1)) = c
  unread : x.editor.accepted.drop (x.editor.taken - 1) = c :: x.editor.unread
  room : x.editor.unread.length + x.editor.line.length < INPUT_BUF_SIZE

structure Killing (x : Cons) : Prop where
  noNewline : NL ∉ x.editor.line
  rep : ∃ pre, pre <+: x.editor.line ∧ Rep x { x.editor with line := pre }

/-- The key is in the buffer, but the editor has not seen it. -/
structure Stored (x : Cons) (c : UInt8) : Prop where
  noNewline : NL ∉ x.editor.line
  ordinary : ordinary c = true
  nonzero : c ≠ 0
  rep : Rep x { x.editor with line := x.editor.line ++ [translate c] }

def Inside : Pc → Cons → Bool → Prop
  | .rTake _ _, x, _ => Tidy x ∧ x.r ≠ x.w
  | .rChar _ _ c, x, _ => Took x c
  | .rBack _ _, x, _ => Took x CTRL_D
  | .iKill, x, _ => Killing x
  | .iErase c, x, _ => Tidy x ∧ (c = CTRL_H ∨ c = DEL)
  | .iStore c, x, _ => Tidy x ∧ ordinary c = true
  | .iCommit c, x, _ => Stored x c
  | _, x, _ => Tidy x

section Events

variable {x : Cons} {c : UInt8} {ed : Editor}

theorem editor_note (x : Cons) (ev : Event) : (x.note ev).editor = x.editor.step ev :=
  replay_concat x.history ev

theorem Tidy.of_key (hed : x.editor.key c = ed) (h : Rep x ed) (hnl : NL ∉ ed.line) :
    Tidy (x.note (.key c)) := by
  have hnote : (x.note (.key c)).editor = ed := (editor_note x _).trans hed
  constructor
  · rw [hnote]
    exact ⟨h.unread, h.typed, h.fits, h.bounded⟩
  · rw [hnote]
    exact hnl

theorem Tidy.take (h : Tidy x) (hne : x.r ≠ x.w) : Took x.take (x.buf (Ring.slot x.r)) := by
  obtain ⟨hrep, hunread⟩ := h.rep.take hne
  have hed : x.take.editor = { x.editor with taken := x.editor.taken + 1 } := editor_note _ .take
  have hfits := h.rep.fits
  rw [hunread, length_cons] at hfits
  refine ⟨⟨?_, ?_⟩, ?_, ?_, ?_⟩
  · rw [hed]
    exact hrep
  · rw [hed]
    exact h.noNewline
  · show x.buf (Ring.slot (x.r + 1 - 1)) = _
    rw [BitVec.add_sub_cancel]
  · rw [hed]
    exact hunread
  · rw [hed]
    show (x.editor.accepted.drop (x.editor.taken + 1)).length + x.editor.line.length < INPUT_BUF_SIZE
    omega

theorem Took.putBack (h : Took x c) : Tidy x.putBack := by
  have hed : x.putBack.editor = { x.editor with taken := x.editor.taken - 1 } :=
    editor_note _ .putBack
  constructor
  · rw [hed]
    exact h.tidy.rep.putBack h.cell h.unread h.room
  · rw [hed]
    exact h.tidy.noNewline

theorem Killing.done (h : Killing x) (hend : x.e = x.w ∨ x.buf (Ring.slot (x.e - 1)) = NL) :
    Tidy (x.note (.key CTRL_U)) := by
  obtain ⟨pre, hpre, hrep⟩ := h.rep
  have hnil : pre = [] := by
    by_contra hne
    rcases hend with he | hc
    · exact hne (hrep.line_nil_iff.mp he)
    · -- a newline would have been accepted
      rw [(hrep.last hne).2] at hc
      apply h.noNewline
      rw [← hc]
      exact hpre.subset (getLast_mem hne)
  subst hnil
  exact Tidy.of_key rfl hrep (not_mem_nil)

theorem Killing.next (h : Killing x) (he : x.e ≠ x.w) : Killing x.erase := by
  obtain ⟨pre, hpre, hrep⟩ := h.rep
  refine ⟨h.noNewline, pre.dropLast, ?_, hrep.erase he⟩
  exact ( dropLast_prefix pre).trans hpre

theorem Stored.key (h : Stored x c) : x.editor.key c = x.editor.insert (translate c) := by
  have hfits := h.rep.fits
  have hlen : (x.editor.line ++ [translate c]).length = x.editor.line.length + 1 := by
    rw [length_append, length_singleton]
  rw [Editor.key_ordinary h.ordinary, if_neg]
  rintro (hzero | hfull)
  · exact h.nonzero hzero
  · change x.editor.unread.length + (x.editor.line ++ [translate c]).length ≤ _ at hfits
    omega

theorem Stored.used (h : Stored x c) :
    (x.e - x.r).toNat = x.editor.unread.length + (x.editor.line.length + 1) := by
  rw [h.rep.used]
  show x.editor.unread.length + (x.editor.line ++ [translate c]).length = _
  rw [length_append, length_singleton]

theorem Stored.commit (h : Stored x c)
    (hc : translate c = NL ∨ translate c = CTRL_D ∨ (x.e - x.r).toNat = INPUT_BUF_SIZE) :
    Tidy (x.accept.note (.key c)) := by
  rw [h.used] at hc
  have hed : x.editor.key c = { x.editor with
      accepted := x.editor.accepted ++ (x.editor.line ++ [translate c]), line := [] } := by
    rw [h.key, Editor.insert, if_pos hc]
  exact Tidy.of_key (x := x.accept) hed h.rep.accept not_mem_nil

theorem Stored.typed (h : Stored x c)
    (hc : ¬ (translate c = NL ∨ translate c = CTRL_D ∨ (x.e - x.r).toNat = INPUT_BUF_SIZE)) :
    Tidy (x.note (.key c)) := by
  rw [h.used] at hc
  have hed : x.editor.key c = { x.editor with line := x.editor.line ++ [translate c] } := by
    rw [h.key, Editor.insert, if_neg hc]
  apply Tidy.of_key hed h.rep
  show NL ∉ x.editor.line ++ [translate c]
  rw [mem_append, mem_singleton]
  rintro (hnl | hnl)
  · exact h.noNewline hnl
  · exact hc (.inl hnl.symm)

end Events

/-! ## §3. The rule for the lock. -/

variable {faults k : Bool} {x : Cons} {l : Pc} {n : Nat} {ok : State n → Act n Input → Prop}

theorem inside_access {x' : Cons} {l' : Pc}
    (h : Access faults x k l x' l') (hheld : held l = true) (hin : Inside l x k) :
    Inside l' x' k := by
  cases h with
  | call => cases hheld
  | ready hne => exact ⟨hin, hne⟩
  | take => exact Tidy.take hin.1 hin.2
  | eofFirst | char => exact hin.tidy
  | eofLater => exact hin
  | back => exact hin.putBack
  | done => exact ⟨⟨hin.rep.unread, hin.rep.typed, hin.rep.fits, hin.rep.bounded⟩, hin.noNewline⟩
  | list => exact Tidy.of_key rfl hin.rep hin.noNewline
  | kill => exact ⟨hin.noNewline, _, prefix_rfl, hin.rep⟩
  | backspace hc | plain hc => exact ⟨hin, hc⟩
  | killOne he => exact hin.next he
  | killEnd he => exact hin.done he
  | @erase c he =>
    obtain ⟨htidy, hc⟩ := hin
    refine Tidy.of_key (x := x.erase) (Editor.key_erase hc) (htidy.rep.erase he) ?_
    exact fun hnl => htidy.noNewline (mem_of_mem_dropLast hnl)
  | @eraseNone c he =>
    obtain ⟨htidy, hc⟩ := hin
    have hnil := htidy.rep.line_nil_iff.mp he
    refine Tidy.of_key ?_ htidy.rep htidy.noNewline
    rw [Editor.key_erase hc, hnil, dropLast_nil, ← hnil]
  | store hc hroom =>
    exact ⟨hin.1.noNewline, hin.2, hc, hin.1.rep.store hroom _⟩
  | @drop c hc =>
    obtain ⟨htidy, hord⟩ := hin
    refine Tidy.of_key ?_ htidy.rep htidy.noNewline
    rw [htidy.rep.used] at hc
    rw [Editor.key_ordinary hord, if_pos hc]
  | commit hc => exact hin.commit hc
  | typed hc => exact hin.typed hc
  | _ => exact hin

theorem inside_rule (faults : Bool) :
    Rule (prog faults) held Tidy Inside (fun _ : State n => True) where
  access l f hc hheld x k i hin := inside_access (access_of_code hc x k i) hheld hin
  outside s p f i _ _ hc hheld := by
    generalize s.pc p = l at hc hheld
    cases l <;> cases hc <;> first | exact ⟨id, fun _ _ h => h⟩ | cases hheld
  env x i x' hx := by cases hx
  acquire l l' hc x k h := by
    cases l <;> cases hc <;> exact h
  release l l' hc x k h := by
    cases l <;> cases hc <;> exact h
  sleep l c l' hc x k := by
    cases l <;> cases hc
    exact ⟨id, id⟩
  wakeup l c l' hc x k h := by
    cases l <;> cases hc
    exact h

theorem inside_killed {k' : Bool} (h : Inside l x k) : Inside l x k' := by
  cases l <;> exact h

theorem tidy_init : Tidy Cons.init := ⟨⟨rfl, rfl, Nat.zero_le _, Nat.le_refl _⟩, not_mem_nil⟩

theorem run_inside {s : State n}
    (h : RunWith faults ok s) : RuleInv Tidy Inside s :=
  run_ruleInv (disciplined faults) (inside_rule faults) rfl tidy_init (fun _ _ _ hin => inside_killed hin)
    (fun _ _ => trivial) h

theorem inside_rep (h : Inside l x k) :
    ∃ line, Rep x { x.editor with line := line } := by
  cases l with
  | rTake | iErase | iStore => exact ⟨_, h.1.rep⟩
  | rChar | rBack => exact ⟨_, h.tidy.rep⟩
  | iKill =>
    obtain ⟨pre, _, hrep⟩ := h.rep
    exact ⟨pre, hrep⟩
  | iCommit | _ => exact ⟨_, h.rep⟩

/-- **In every state of every run** the unread bytes are in the buffer. -/
theorem run_rep {s : State n}
    (h : RunWith faults ok s) : ∃ line, Rep s.shared { s.shared.editor with line := line } := by
  have hin := run_inside h
  cases hlock : s.lock with
  | none => exact ⟨_, (hin.free hlock).rep⟩
  | some p => exact inside_rep (hin.holder p hlock)

end Xv6.Console
