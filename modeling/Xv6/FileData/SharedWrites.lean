/-
  Xv6.FileData.SharedWrites — writes through a shared file are not lost.

  The chunks written through one file lie one behind the other, and `f->off` is where they
  end, in every interleaving.
-/
import Xv6.FileData.SharedFile

namespace Xv6.SharedFile

open Lib Fs FileData List

/-! ## §1. Chunks in a row. -/

def total (l : List Chunk) : Nat := (l.map Chunk.len).sum

/-- The chunks start where the one before them ends, the first one at `start`. -/
def Adjacent (pos : Chunk → Nat) (start : Nat) : List Chunk → Prop
  | [] => True
  | c :: l => pos c = start ∧ Adjacent pos (start + c.len) l

def through (f : Fin NFILE) (l : List Chunk) : List Chunk := l.filter fun c => c.file = f

theorem total_append (l k : List Chunk) : total (l ++ k) = total l + total k := by
  simp [total]

theorem total_singleton (c : Chunk) : total [c] = c.len := by simp [total]

theorem adjacent_concat (pos : Chunk → Nat) (start : Nat) (l : List Chunk) (c : Chunk) :
    Adjacent pos start (l ++ [c]) ↔ Adjacent pos start l ∧ pos c = start + total l := by
  induction l generalizing start with
  | nil => simp [Adjacent, total]
  | cons d l ih =>
    have htotal : start + d.len + total l = start + total (d :: l) := by
      simp [total, Nat.add_assoc]
    rw [cons_append, Adjacent, ih, Adjacent, htotal, and_assoc]

theorem through_concat (f : Fin NFILE) (l : List Chunk) (c : Chunk) :
    through f (l ++ [c]) = if c.file = f then through f l ++ [c] else through f l := by
  unfold through
  rw [filter_append]
  by_cases h : c.file = f
  · simp [h]
  · simp [h]

theorem Adjacent.pairwise {pos : Chunk → Nat} {start : Nat} {l : List Chunk}
    (h : Adjacent pos start l) :
    l.Pairwise (fun c d => pos c + c.len ≤ pos d) ∧ ∀ c ∈ l, start ≤ pos c := by
  induction l generalizing start with
  | nil => exact ⟨.nil, by simp⟩
  | cons c l ih =>
    obtain ⟨hpos, hrest⟩ := h
    obtain ⟨hpair, hle⟩ := ih hrest
    refine ⟨.cons (fun d hd => ?_) hpair, fun d hd => ?_⟩
    · have := hle d hd
      omega
    · rcases mem_cons.mp hd with rfl | hd
      · omega
      · have := hle d hd
        omega

def replay (b : Bytes) (l : List Chunk) : Bytes :=
  l.foldl (fun b c => overlay b c.off c.len c.bytes) b

theorem replay_concat (b : Bytes) (l : List Chunk) (c : Chunk) :
    replay b (l ++ [c]) = overlay (replay b l) c.off c.len c.bytes := by
  simp [replay]

theorem replay_of_notMem (b : Bytes) (l : List Chunk) (x : Nat)
    (h : ∀ c ∈ l, x < c.off ∨ c.off + c.len ≤ x) : replay b l x = b x := by
  induction l generalizing b with
  | nil => rfl
  | cons c l ih =>
    show replay (overlay b c.off c.len c.bytes) l x = b x
    rw [ih _ fun d hd => h d (by simp [hd])]
    exact overlay_of_notMem _ _ (h c (by simp))

/-! ## §2. What is known of a process. -/

def Pc.holds : Pc → Bool
  | .copying .. | .copied .. | .advanced .. | .readLocked .. | .readDone => true
  | .idle | .head .. | .waiting .. | .reading .. => false

def Pc.writing : Pc → Bool
  | .copying .. | .copied .. => true
  | _ => false

def Pc.progress (f : Fin NFILE) : Pc → Int
  | .head c _ i | .waiting c _ i | .copying c _ i _ _ | .copied c _ i _ =>
    if c.file = f then i else 0
  | .advanced c _ i r => if c.file = f then i + max r 0 else 0
  | .idle | .reading .. | .readLocked .. | .readDone => 0

/-- The chunks of a call: its buffer from the start, up to `i`. -/
structure OwnOk (history : List Chunk) (c : Call) (own : List Chunk) (i : Nat) : Prop where
  readable : Readable c.src c.n
  le : i ≤ c.n
  inOrder : Adjacent Chunk.i 0 own
  total : total own = i
  file : ∀ e ∈ own, e.file = c.file
  bytes : ∀ e ∈ own, e.bytes = bytesAt (c.source e.i)
  sublist : own.Sublist history

theorem OwnOk.mono {history history' : List Chunk} {c : Call} {own : List Chunk} {i : Nat}
    (h : OwnOk history c own i) (hext : history.Sublist history') : OwnOk history' c own i :=
  { h with sublist := h.sublist.trans hext }

theorem chunk_pos {c : Call} {i : Nat} (h : i < c.n) : 0 < c.chunk i := by
  have hmax : chunkMax = 3072 := rfl
  unfold Call.chunk
  omega

theorem chunk_le (c : Call) (i : Nat) : c.chunk i ≤ c.n - i := Nat.min_le_left _ _

theorem source_readable {c : Call} {i : Nat} (h : Readable c.src c.n) :
    Readable (c.source i) (c.chunk i) := by
  intro k hk
  have hle := chunk_le c i
  exact h (i + k) (by omega)

def Fresh (s : State) : Prop := ∀ e ∈ s.history, e.turn < s.turn

section Invariant

variable (f : Fin NFILE) (b0 : Bytes)

def Outcome (s : State) (c : Call) (i : Nat) (r : Int) : Prop :=
  r = c.chunk i ∧ s.off c.file + c.chunk i ≤ s.data.size ∧
      s.data.bytes =
        overlay (replay b0 s.history) (s.off c.file) (c.chunk i) (bytesAt (c.source i)) ∨
    r = -1 ∧ (c.file = f → i = 0) ∧ s.data.bytes = replay b0 s.history

def Local (s : State) : Pc → Prop
  | .idle | .readDone => True
  | .reading g _ | .readLocked g _ => g ≠ f
  | .head c own i => OwnOk s.history c own i
  | .waiting c own i => OwnOk s.history c own i ∧ i < c.n
  | .copying c own i off tot =>
    OwnOk s.history c own i ∧ i < c.n ∧ off = s.off c.file ∧ tot ≤ c.chunk i ∧
      off ≤ s.data.size ∧
      s.data.bytes = overlay (replay b0 s.history) off tot (bytesAt (c.source i)) ∧ Fresh s
  | .copied c own i r =>
    OwnOk s.history c own i ∧ i < c.n ∧ Outcome f b0 s c i r ∧ Fresh s
  | .advanced c own i r =>
    i < c.n ∧
      (r = c.chunk i ∧ OwnOk s.history c own (i + c.chunk i) ∨
        r = -1 ∧ (c.file = f → i = 0) ∧ OwnOk s.history c own i)

theorem Local.frame {s s' : State} {pc : Pc} (h : Local f b0 s pc)
    (hext : s.history.Sublist s'.history)
    (hkeep : pc.holds = true → s'.data.bytes = s.data.bytes ∧ s'.data.size = s.data.size ∧
      s'.off = s.off ∧ s'.turn = s.turn ∧ s'.history = s.history) : Local f b0 s' pc := by
  cases pc with
  | idle | readDone => exact trivial
  | reading g n => exact h
  | readLocked g n => exact h
  | head c own i => exact OwnOk.mono h hext
  | waiting c own i => exact ⟨h.1.mono hext, h.2⟩
  | copying c own i off tot =>
    obtain ⟨hbytes, hsize, hoff, hturn, hhist⟩ := hkeep rfl
    unfold Local Fresh at h ⊢
    rw [hbytes, hsize, hoff, hturn, hhist]
    exact h
  | copied c own i r =>
    obtain ⟨hbytes, hsize, hoff, hturn, hhist⟩ := hkeep rfl
    unfold Local Outcome Fresh at h ⊢
    rw [hbytes, hsize, hoff, hturn, hhist]
    exact h
  | advanced c own i r =>
    obtain ⟨_, _, _, _, hhist⟩ := hkeep rfl
    unfold Local at h ⊢
    rw [hhist]
    exact h

/-- A finished call: everything is written in order, or nothing. -/
structure ResultOk (history : List Chunk) (r : Result) : Prop where
  inOrder : Adjacent Chunk.i 0 r.own
  file : ∀ e ∈ r.own, e.file = r.call.file
  bytes : ∀ e ∈ r.own, e.bytes = bytesAt (r.call.source e.i)
  sublist : r.own.Sublist history
  ret : r.ret = r.call.n ∧ total r.own = r.call.n ∨ r.ret = -1 ∧ total r.own = 0

def returned (l : List Result) : Int :=
  (l.map fun r => if r.call.file = f then max r.ret 0 else 0).sum

theorem returned_concat (l : List Result) (r : Result) :
    returned f (l ++ [r]) = returned f l + if r.call.file = f then max r.ret 0 else 0 := by
  simp [returned]

variable (o0 : Nat)

structure Inv (s : State) : Prop where
  proc : ∀ p, Local f b0 s (s.pc p)
  lock : ∀ p, (s.pc p).holds = true → s.lock = some p
  laid : Adjacent Chunk.off o0 (through f s.history)
  offset : s.off f = o0 + total (through f s.history)
  counted : (s.off f : Int) = o0 + returned f s.results + ∑ p, (s.pc p).progress f
  inside : through f s.history ≠ [] → s.off f ≤ s.data.size
  turns : s.history.Pairwise fun c d => c.turn < d.turn
  bounded : ∀ e ∈ s.history, e.turn ≤ s.turn
  results : ∀ r ∈ s.results, r.call.file = f → ResultOk s.history r
  content : (∀ p, (s.pc p).writing = false) → s.data.bytes = replay b0 s.history

end Invariant

/-! ## §3. Steps. -/

section Step

variable {f : Fin NFILE} {b0 : Bytes} {o0 : Nat} {s s' : State} {p : Slot} {a : Act}

theorem Inv.holder_unique (h : Inv f b0 o0 s) {q : Slot} (hp : (s.pc p).holds = true)
    (hq : (s.pc q).holds = true) : q = p :=
  Option.some.inj ((h.lock q hq).symm.trans (h.lock p hp))

theorem Inv.not_holds (h : Inv f b0 o0 s) (hfree : s.lock = none) (q : Slot) :
    (s.pc q).holds = false := by
  by_contra hq
  have hlock := h.lock q (by simpa using hq)
  rw [hfree] at hlock
  cases hlock

variable {pc : Pc} {c : Call} {own : List Chunk}

theorem holds_of_writing (h : pc.writing = true) : pc.holds = true := by
  cases pc <;> simp_all [Pc.writing, Pc.holds]

theorem progress_update (s : State) (p : Slot) (pc : Pc) : ∑ q, ((s.goto p pc).pc q).progress f =
      ∑ q, (s.pc q).progress f - (s.pc p).progress f + pc.progress f :=
  sum_update (Pc.progress f) s.pc p pc

theorem goto_self (s : State) (p : Slot) (pc : Pc) : (s.goto p pc).pc p = pc :=
  Function.update_self ..

theorem goto_of_ne (s : State) {p q : Slot} (pc : Pc) (h : q ≠ p) :
    (s.goto p pc).pc q = s.pc q := Function.update_of_ne h ..

section

variable (h : Inv f b0 o0 s)

include h

theorem Inv.goto (hlocal : Local f b0 s pc) (hholds : pc.holds = true → s.lock = some p)
    (hprogress : pc.progress f = (s.pc p).progress f)
    (hcontent : pc.writing = false → (∀ q, q ≠ p → (s.pc q).writing = false) →
      s.data.bytes = replay b0 s.history) : Inv f b0 o0 (s.goto p pc) where
  proc q := by
    by_cases hq : q = p
    · rw [hq, goto_self]
      exact hlocal
    · rw [goto_of_ne s pc hq]
      exact h.proc q
  lock q hq := by
    by_cases hqp : q = p
    · rw [hqp, goto_self] at hq
      rw [hqp]
      exact hholds hq
    · rw [goto_of_ne s pc hqp] at hq
      exact h.lock q hq
  laid := h.laid
  offset := h.offset
  counted := by
    rw [progress_update, hprogress, sub_add_cancel]
    exact h.counted
  inside := h.inside
  turns := h.turns
  bounded := h.bounded
  results := h.results
  content hall := by
    refine hcontent ?_ fun q hq => ?_
    · have hp := hall p
      rwa [goto_self] at hp
    · have hall' := hall q
      rwa [goto_of_ne s pc hq] at hall'

theorem Inv.acquire (hfree : s.lock = none) :
    Inv f b0 o0 { s with lock := some p, turn := s.turn + 1 } :=
  { h with
    proc := fun q => Local.frame f b0 (h.proc q) (List.Sublist.refl _) fun hq => by
      rw [h.not_holds hfree q] at hq
      cases hq
    lock := fun q hq => by
      rw [h.not_holds hfree q] at hq
      cases hq
    bounded := fun e he => Nat.le_succ_of_le (h.bounded e he) }

theorem Inv.release (hno : ∀ q, (s.pc q).holds = false) : Inv f b0 o0 { s with lock := none } :=
  { h with
    proc := fun q => Local.frame f b0 (h.proc q) (List.Sublist.refl _)
      fun _ => ⟨rfl, rfl, rfl, rfl, rfl⟩
    lock := fun q hq => by
      rw [hno q] at hq
      cases hq }

theorem Inv.no_holder (hp : (s.pc p).holds = true)
    (hpc : pc.holds = false) (q : Slot) : ((s.goto p pc).pc q).holds = false := by
  by_cases hq : q = p
  · rw [hq, goto_self]
    exact hpc
  · rw [goto_of_ne s pc hq]
    by_contra hholds
    exact hq (h.holder_unique hp (by simpa using hholds))

theorem Inv.finish {ret : Int} (hpc : (s.pc p).writing = false)
    (hprogress : (s.pc p).progress f = if c.file = f then max ret 0 else 0)
    (hresult : c.file = f → ResultOk s.history { call := c, ret := ret, own := own }) :
    Inv f b0 o0 (s.finish p c own ret) where
  proc q := by
    show Local f b0 _ ((s.goto p .idle).pc q)
    by_cases hq : q = p
    · rw [hq, goto_self]
      exact trivial
    · rw [goto_of_ne s _ hq]
      exact Local.frame f b0 (h.proc q) (List.Sublist.refl _) fun _ => ⟨rfl, rfl, rfl, rfl, rfl⟩
  lock q hq := by
    change ((s.goto p .idle).pc q).holds = true at hq
    by_cases hqp : q = p
    · rw [hqp, goto_self] at hq
      cases hq
    · rw [goto_of_ne s _ hqp] at hq
      exact h.lock q hq
  laid := h.laid
  offset := h.offset
  counted := by
    show (s.off f : Int) = o0 + returned f (s.results ++ [_]) +
      ∑ q, ((s.goto p .idle).pc q).progress f
    have hcounted := h.counted
    rw [returned_concat, progress_update, hprogress]
    show _ = _ + _ + (_ - _ + 0)
    dsimp only
    omega
  inside := h.inside
  turns := h.turns
  bounded := h.bounded
  results r hr hfile := by
    rcases mem_append.mp hr with hr | hr
    · exact h.results r hr hfile
    · obtain rfl := mem_singleton.mp hr
      exact hresult hfile
  content hall := by
    refine h.content fun q => ?_
    by_cases hq : q = p
    · rw [hq]
      exact hpc
    · have hall' := hall q
      change ((s.goto p .idle).pc q).writing = false at hall'
      rwa [goto_of_ne s _ hq] at hall'

theorem Inv.write (hp : (s.pc p).holds = true) {d : Data}
    (hsize : s.data.size ≤ d.size) (hwriting : pc.writing = true)
    (hprogress : pc.progress f = (s.pc p).progress f)
    (hlocal : Local f b0 { s with data := d } pc) :
    Inv f b0 o0 { s.goto p pc with data := d } where
  proc q := by
    show Local f b0 _ ((s.goto p pc).pc q)
    by_cases hq : q = p
    · rw [hq, goto_self]
      exact Local.frame f b0 hlocal (List.Sublist.refl _) fun _ => ⟨rfl, rfl, rfl, rfl, rfl⟩
    · rw [goto_of_ne s pc hq]
      refine Local.frame f b0 (h.proc q) (List.Sublist.refl _) fun hholds => ?_
      exact absurd (h.holder_unique hp hholds) hq
  lock q hq := by
    change ((s.goto p pc).pc q).holds = true at hq
    by_cases hqp : q = p
    · rw [hqp]
      exact h.lock p hp
    · rw [goto_of_ne s pc hqp] at hq
      exact h.lock q hq
  laid := h.laid
  offset := h.offset
  counted := by
    show (s.off f : Int) = o0 + returned f s.results + ∑ q, ((s.goto p pc).pc q).progress f
    rw [progress_update, hprogress, sub_add_cancel]
    exact h.counted
  inside hne := (h.inside hne).trans hsize
  turns := h.turns
  bounded := h.bounded
  results := h.results
  content hall := by
    have hall' := hall p
    change ((s.goto p pc).pc p).writing = false at hall'
    rw [goto_self, hwriting] at hall'
    cases hall'

theorem Inv.advanced {i : Nat} (hpc : s.pc p = .copied c own i (c.chunk i)) (hi : i < c.n)
    (hown : OwnOk s.history c own i) (hsize : s.off c.file + c.chunk i ≤ s.data.size)
    (hbytes : s.data.bytes =
      overlay (replay b0 s.history) (s.off c.file) (c.chunk i) (bytesAt (c.source i)))
    (hfresh : Fresh s) : Inv f b0 o0 (s.advanced p c own i (c.chunk i)) := by
  have hpos := chunk_pos hi
  have hp : (s.pc p).holds = true := by rw [hpc]; rfl
  have hlen : ((c.chunk i : Int)).toNat = c.chunk i := Int.toNat_natCast _
  have heq : s.advanced p c own i (c.chunk i) =
      { s.goto p (.advanced c (own ++ [s.chunkOf c i (c.chunk i)]) i (c.chunk i)) with
        off := put s.off c.file (s.off c.file + c.chunk i)
        history := s.history ++ [s.chunkOf c i (c.chunk i)] } := by
    unfold State.advanced
    rw [if_pos (by omega), hlen]
  rw [heq]
  have hext : s.history.Sublist (s.history ++ [s.chunkOf c i (c.chunk i)]) :=
    sublist_append_left ..
  have hthrough : through f (s.history ++ [s.chunkOf c i (c.chunk i)]) =
      if c.file = f then through f s.history ++ [s.chunkOf c i (c.chunk i)]
      else through f s.history :=
    through_concat f s.history (s.chunkOf c i (c.chunk i))
  constructor
  · -- processes
    intro q
    show Local f b0 _ ((s.goto p _).pc q)
    by_cases hq : q = p
    · rw [hq, goto_self]
      refine ⟨hi, .inl ⟨rfl, hown.readable, ?_, ?_, ?_, ?_, ?_, ?_⟩⟩
      · have hle := chunk_le c i
        omega
      · rw [adjacent_concat]
        exact ⟨hown.inOrder, by rw [hown.total, Nat.zero_add]; rfl⟩
      · rw [total_append, total_singleton, hown.total]
        rfl
      · intro e he
        rcases mem_append.mp he with he | he
        · exact hown.file e he
        · obtain rfl := mem_singleton.mp he
          rfl
      · intro e he
        rcases mem_append.mp he with he | he
        · exact hown.bytes e he
        · obtain rfl := mem_singleton.mp he
          rfl
      · exact hown.sublist.append (List.Sublist.refl _)
    · rw [goto_of_ne s _ hq]
      refine Local.frame f b0 (h.proc q) hext fun hholds => ?_
      exact absurd (h.holder_unique hp hholds) hq
  · -- lock
    intro q hq
    change ((s.goto p _).pc q).holds = true at hq
    by_cases hqp : q = p
    · rw [hqp]
      exact h.lock p hp
    · rw [goto_of_ne s _ hqp] at hq
      exact h.lock q hq
  · show Adjacent Chunk.off o0 (through f (s.history ++ [_]))
    rw [hthrough]
    split
    · next hfile =>
      rw [adjacent_concat]
      refine ⟨h.laid, ?_⟩
      rw [← h.offset, ← hfile]
      rfl
    · exact h.laid
  · show put s.off c.file _ f = o0 + total (through f (s.history ++ [_]))
    rw [hthrough]
    by_cases hfile : c.file = f
    · have hoffset := h.offset
      rw [if_pos hfile, total_append, total_singleton, hfile, put_self]
      show _ = o0 + (_ + c.chunk i)
      omega
    · rw [if_neg hfile, put_of_ne (Ne.symm hfile)]
      exact h.offset
  · show ((put s.off c.file _ f : Nat) : Int) = o0 + returned f s.results +
      ∑ q, ((s.goto p _).pc q).progress f
    have hcounted := h.counted
    have hbefore : Pc.progress f (.copied c own i (c.chunk i)) =
        if c.file = f then (i : Int) else 0 := rfl
    have hafter : Pc.progress f
        (.advanced c (own ++ [s.chunkOf c i (c.chunk i)]) i (c.chunk i)) =
        if c.file = f then i + max (c.chunk i : Int) 0 else 0 := rfl
    rw [progress_update, hpc, hbefore, hafter]
    by_cases hfile : c.file = f
    · rw [hfile, put_self, if_pos rfl, if_pos rfl]
      omega
    · rw [put_of_ne (Ne.symm hfile), if_neg hfile, if_neg hfile]
      omega
  · intro hne
    show put s.off c.file _ f ≤ s.data.size
    by_cases hfile : c.file = f
    · rw [hfile, put_self, ← hfile]
      exact hsize
    · rw [put_of_ne (Ne.symm hfile)]
      apply h.inside
      change through f (s.history ++ [_]) ≠ [] at hne
      rw [hthrough, if_neg hfile] at hne
      exact hne
  · refine pairwise_append.mpr ⟨h.turns, pairwise_singleton .., fun e he d hd => ?_⟩
    obtain rfl := mem_singleton.mp hd
    exact hfresh e he
  · intro e he
    rcases mem_append.mp he with he | he
    · exact h.bounded e he
    · obtain rfl := mem_singleton.mp he
      exact Nat.le_refl _
  · intro r hr hfile
    have hres := h.results r hr hfile
    exact { hres with sublist := hres.sublist.trans hext }
  · intro _
    show s.data.bytes = replay b0 (s.history ++ [_])
    rw [replay_concat]
    exact hbytes

theorem Inv.read {g : Fin NFILE} {n : Nat} (hpc : s.pc p = .readLocked g n) (o : Nat) :
    Inv f b0 o0 { s.goto p .readDone with off := put s.off g o } := by
  have hp : (s.pc p).holds = true := by rw [hpc]; rfl
  have hne : f ≠ g := by
    have hlocal := h.proc p
    rw [hpc] at hlocal
    exact Ne.symm hlocal
  have hmoved : Inv f b0 o0 (s.goto p .readDone) :=
    h.goto trivial (fun _ => h.lock p hp) (by rw [hpc]; rfl)
      fun _ hall => h.content fun q => by
        by_cases hq : q = p
        · rw [hq, hpc]
          rfl
        · exact hall q hq
  have hoff : put s.off g o f = s.off f := put_of_ne hne
  exact
    { hmoved with
      proc := fun q => by
        show Local f b0 _ ((s.goto p .readDone).pc q)
        by_cases hq : q = p
        · rw [hq, goto_self]
          exact trivial
        · rw [goto_of_ne s _ hq]
          refine Local.frame f b0 (h.proc q) (List.Sublist.refl _) fun hholds => ?_
          exact absurd (h.holder_unique hp hholds) hq
      offset := hoff.trans hmoved.offset
      counted := (congrArg Int.ofNat hoff).trans hmoved.counted
      inside := fun hne' => hoff.trans_le (hmoved.inside hne') }

theorem Inv.goto_quiet (hlocal : Local f b0 s pc) (hholds : pc.holds = true → s.lock = some p)
    (hprogress : pc.progress f = (s.pc p).progress f) (hp : (s.pc p).writing = false) :
    Inv f b0 o0 (s.goto p pc) := by
  refine h.goto hlocal hholds hprogress fun _ hall => h.content fun q => ?_
  by_cases hq : q = p
  · rw [hq]
    exact hp
  · exact hall q hq

theorem Inv.content_of_free (hfree : s.lock = none) : s.data.bytes = replay b0 s.history := by
  apply h.content
  intro q
  by_contra hq
  have hholds := holds_of_writing (by simpa using hq)
  rw [h.not_holds hfree q] at hholds
  cases hholds

theorem Inv.locked (hfree : s.lock = none)
    (hlocal : Local f b0 { s with lock := some p, turn := s.turn + 1 } pc)
    (hprogress : pc.progress f = (s.pc p).progress f) : Inv f b0 o0 (s.locked p pc) :=
  (h.acquire hfree).goto hlocal (fun _ => rfl) hprogress fun _ _ => h.content_of_free hfree

theorem Inv.unlocked (hp : (s.pc p).holds = true)
    (hlocal : Local f b0 s pc) (hpc : pc.holds = false)
    (hprogress : pc.progress f = (s.pc p).progress f) (hwriting : (s.pc p).writing = false) :
    Inv f b0 o0 (s.unlocked p pc) := by
  have hmoved : Inv f b0 o0 (s.goto p pc) :=
    h.goto_quiet hlocal (fun hholds => by rw [hpc] at hholds; cases hholds) hprogress hwriting
  exact hmoved.release (h.no_holder hp hpc)

/-! ### writei -/

theorem fresh_acquired : Fresh { s with lock := some p, turn := s.turn + 1 } :=
  fun e he => Nat.lt_succ_of_le (h.bounded e he)

theorem Inv.first_of_beyond {i : Nat}
    (hown : OwnOk s.history c own i) (hbeyond : s.data.size < s.off c.file) (hfile : c.file = f) :
    i = 0 := by
  have hnone : through f s.history = [] := by
    by_contra hne
    have hinside := h.inside hne
    rw [hfile] at hbeyond
    omega
  have hownNil : own = [] := by
    apply eq_nil_iff_forall_not_mem.mpr
    intro e he
    have hmem : e ∈ through f s.history :=
      mem_filter.mpr ⟨hown.sublist.subset he, by simp [hown.file e he, hfile]⟩
    rw [hnone] at hmem
    cases hmem
  rw [← hown.total, hownNil]
  rfl

theorem Inv.copy {i off tot : Nat}
    {d : Data} {r : Option Nat} (hpc : s.pc p = .copying c own i off tot)
    (htot : tot < c.chunk i) (hfree : 2 ≤ s.data.free)
    (hturn : FileData.turn s.data (c.source i) (off + tot) tot (c.chunk i) = (d, r)) :
    ∃ m, r = some m ∧ Inv f b0 o0 { s.goto p (.copying c own i off (tot + m)) with data := d } := by
  have hlocal := h.proc p
  rw [hpc] at hlocal
  obtain ⟨hown, hi, hoff, _, hbelow, hbytes, hfresh⟩ := hlocal
  obtain ⟨d', hd', hbytes', hsize, _⟩ :=
    turn_spec s.data (c.source i) (off + tot) tot (c.chunk i) hfree
      (source_readable hown.readable) htot
  have hle := turnLength_le (off + tot) tot (c.chunk i)
  rw [hturn] at hd'
  obtain ⟨rfl, rfl⟩ := Prod.mk.inj hd'
  refine ⟨_, rfl, h.write (by rw [hpc]; rfl) (by rw [hsize]) rfl (by rw [hpc]; rfl) ?_⟩
  refine ⟨hown, hi, hoff, by omega, ?_, ?_, hfresh⟩
  · show off ≤ d.size
    rw [hsize]
    exact hbelow
  · show d.bytes = _
    rw [hbytes', hbytes]
    exact overlay_append _ _

theorem Inv.copied {i off tot : Nat}
    (hpc : s.pc p = .copying c own i off tot) (htot : ¬ tot < c.chunk i) :
    Inv f b0 o0 { s.goto p (.copied c own i tot) with data := grown s.data (off + tot) } := by
  have hlocal := h.proc p
  rw [hpc] at hlocal
  obtain ⟨hown, hi, hoff, htot', hbelow, hbytes, hfresh⟩ := hlocal
  obtain rfl : tot = c.chunk i := by omega
  refine h.write (by rw [hpc]; rfl) (Nat.le_max_left ..) rfl (by rw [hpc]; rfl) ?_
  refine ⟨hown, hi, .inl ⟨rfl, ?_, ?_⟩, hfresh⟩
  · show s.off c.file + _ ≤ max s.data.size (off + _)
    rw [hoff]
    exact Nat.le_max_right ..
  · show s.data.bytes = _
    rw [hbytes, hoff]

/-- **Every step keeps the invariant.** -/
theorem Inv.move (hmove : Move s p a s') (hplenty : Plenty f s a) : Inv f b0 o0 s' := by
  have hlocal := h.proc p
  cases hmove with
  | filewrite c hpc =>
    refine h.goto_quiet ?_ (fun h => by cases h) ?_ (by rw [hpc]; rfl)
    · exact ⟨hplenty, Nat.zero_le _, trivial, rfl, by simp, by simp, nil_sublist _⟩
    · rw [hpc]
      show (if c.file = f then ((0 : Nat) : Int) else 0) = 0
      split <;> rfl
  | again c own i hpc hi =>
    rw [hpc] at hlocal
    exact h.goto_quiet ⟨hlocal, hi⟩ (fun h => by cases h) (by rw [hpc]; rfl) (by rw [hpc]; rfl)
  | done c own i hpc hi =>
    rw [hpc] at hlocal
    have hle := hlocal.le
    obtain rfl : i = c.n := by omega
    rw [if_pos rfl]
    refine h.finish (by rw [hpc]; rfl) ?_ fun _ => ?_
    · rw [hpc]
      show (if c.file = f then (c.n : Int) else 0) = _
      rw [max_eq_left (Int.natCast_nonneg _)]
    · exact ⟨hlocal.inOrder, hlocal.file, hlocal.bytes, hlocal.sublist, .inl ⟨rfl, hlocal.total⟩⟩
  | ilock c own i hpc hfree hok =>
    rw [hpc] at hlocal
    obtain ⟨hown, hi⟩ := hlocal
    have hoff : s.off c.file ≤ s.data.size := by
      simp only [writable, Bool.and_eq_true, decide_eq_true_eq] at hok
      exact hok.1
    refine h.locked hfree ?_ (by rw [hpc]; rfl)
    refine ⟨hown, hi, rfl, Nat.zero_le _, hoff, ?_, fresh_acquired h⟩
    rw [overlay_zero]
    exact h.content_of_free hfree
  | refuse c own i hpc hfree hno =>
    rw [hpc] at hlocal
    obtain ⟨hown, hi⟩ := hlocal
    have hbeyond : s.data.size < s.off c.file := by
      simp only [Plenty, hpc] at hplenty
      simp only [writable, Bool.and_eq_true, decide_eq_true_eq] at hno
      omega
    refine h.locked hfree ?_ (by rw [hpc]; rfl)
    exact ⟨hown, hi,
      Or.inr ⟨rfl, h.first_of_beyond hown hbeyond, h.content_of_free hfree⟩,
      fresh_acquired h⟩
  | copy c own i off tot d m hpc htot hturn =>
    obtain ⟨m', hm, hinv⟩ := h.copy hpc htot hplenty hturn
    obtain rfl := Option.some.inj hm
    exact hinv
  | broken c own i off tot d hpc htot hturn =>
    obtain ⟨m, hm, _⟩ := h.copy hpc htot hplenty hturn
    cases hm
  | copied c own i off tot hpc htot => exact h.copied hpc htot
  | advance c own i r hpc hr =>
    rw [hpc] at hlocal
    obtain ⟨hown, hi, hout, hfresh⟩ := hlocal
    rcases hout with ⟨rfl, hsize, hbytes⟩ | ⟨rfl, _⟩
    · exact h.advanced hpc hi hown hsize hbytes hfresh
    · cases hr
  | remain c own i r hpc hr =>
    rw [hpc] at hlocal
    obtain ⟨hown, hi, hout, _⟩ := hlocal
    have hpos := chunk_pos hi
    rcases hout with ⟨rfl, _⟩ | ⟨rfl, hfirst, hbytes⟩
    · omega
    · refine h.goto ⟨hi, .inr ⟨rfl, hfirst, hown⟩⟩ ?_ ?_ fun _ _ => hbytes
      · exact fun _ => h.lock p (by rw [hpc]; rfl)
      · rw [hpc]
        show (if c.file = f then (i : Int) + max (-1) 0 else 0) =
          if c.file = f then (i : Int) else 0
        simp
  | iunlock c own i r hpc hr =>
    rw [hpc] at hlocal
    obtain ⟨hi, ⟨_, hown⟩ | ⟨hr', _⟩⟩ := hlocal
    · subst hr
      refine h.unlocked (by rw [hpc]; rfl) hown rfl ?_ (by rw [hpc]; rfl)
      rw [hpc]
      show (if c.file = f then ((i + c.chunk i : Nat) : Int) else 0) =
        if c.file = f then (i : Int) + max (c.chunk i : Int) 0 else 0
      split
      · omega
      · rfl
    · omega
  | fail c own i r hpc hr =>
    rw [hpc] at hlocal
    obtain ⟨hi, ⟨hr', _⟩ | ⟨rfl, hfirst, hown⟩⟩ := hlocal
    · exact absurd hr' hr
    have hout : Inv f b0 o0 (s.unlocked p .idle) := by
      refine h.unlocked (by rw [hpc]; rfl) trivial rfl ?_ (by rw [hpc]; rfl)
      rw [hpc]
      show (0 : Int) = if c.file = f then (i : Int) + max (-1) 0 else 0
      split
      · next hfile => rw [hfirst hfile]; rfl
      · rfl
    have hidle : (s.unlocked p .idle).pc p = .idle := goto_self s p .idle
    refine hout.finish (by rw [hidle]; rfl) ?_ fun hfile => ?_
    · rw [hidle]
      show (0 : Int) = if c.file = f then max (-1) 0 else 0
      split <;> rfl
    · refine ⟨hown.inOrder, hown.file, hown.bytes, hown.sublist, .inr ⟨rfl, ?_⟩⟩
      rw [hown.total]
      exact hfirst hfile
  | fileread g n hpc =>
    exact h.goto_quiet hplenty (fun h => by cases h) (by rw [hpc]; rfl) (by rw [hpc]; rfl)
  | readLock g n hpc hfree =>
    rw [hpc] at hlocal
    exact h.locked hfree hlocal (by rw [hpc]; rfl)
  | readi g n ok hpc => exact h.read hpc _
  | readUnlock hpc =>
    exact h.unlocked (by rw [hpc]; rfl) trivial rfl (by rw [hpc]; rfl) (by rw [hpc]; rfl)

theorem Inv.step (hstep : SharedFile.step s a = some s')
    (hplenty : Plenty f s a) : Inv f b0 o0 s' := by
  rcases move_of_step hstep with ⟨free, rfl, rfl⟩ | ⟨p, hmove⟩
  · exact
      { h with
        proc := fun q => Local.frame f b0 (h.proc q) (List.Sublist.refl _)
          fun _ => ⟨rfl, rfl, rfl, rfl, rfl⟩ }
  · exact h.move hmove hplenty

end

end Step

/-! ## §4. Runs. -/

section Runs

variable {f : Fin NFILE} {init s : State}

section

variable (hquiet : Quiet init) (hhistory : init.history = []) (hresults : init.results = [])

include hquiet hhistory hresults

theorem inv_of_quiet : Inv f init.data.bytes (init.off f) init where
  proc p := by
    rw [hquiet.idle p]
    exact trivial
  lock p hp := by
    rw [hquiet.idle p] at hp
    cases hp
  laid := by
    rw [hhistory]
    exact trivial
  offset := by
    rw [hhistory]
    rfl
  counted := by
    have hprogress : ∑ p, (init.pc p).progress f = 0 :=
      Finset.sum_eq_zero fun p _ => by rw [hquiet.idle p]; rfl
    rw [hresults, hprogress]
    simp [returned]
  inside hne := absurd (by rw [hhistory]; rfl) hne
  turns := by
    rw [hhistory]
    exact .nil
  bounded := by
    rw [hhistory]
    simp
  results := by
    rw [hresults]
    simp
  content _ := by
    rw [hhistory]
    rfl

theorem inv_of_run (hrun : WriteRun f init s) : Inv f init.data.bytes (init.off f) s := by
  refine Reachable.invariant (Inv f init.data.bytes (init.off f)) ?_ ?_ hrun
  · rintro s rfl
    exact inv_of_quiet hquiet hhistory hresults
  · rintro s s' hs ⟨a, hstep, hplenty⟩
    exact hs.step hstep hplenty

end

theorem Inv.byte_kept {b0 : Bytes} {o0 : Nat} (h : Inv f b0 o0 s) (hdone : ∀ p, s.pc p = .idle)
    {before after : List Chunk} {c : Chunk} (hsplit : s.history = before ++ c :: after)
    (hfile : c.file = f) {k : Nat} (hk : k < c.len)
    (hothers : ∀ d ∈ after, d.file ≠ f → c.off + k < d.off ∨ d.off + d.len ≤ c.off + k) :
    s.data.bytes (c.off + k) = c.bytes k := by
  have hcontent := h.content fun p => by rw [hdone p]; rfl
  have hpair := h.laid.pairwise.1
  rw [hsplit] at hcontent hpair
  have hlater : ∀ d ∈ after, c.off + k < d.off ∨ d.off + d.len ≤ c.off + k := by
    intro d hd
    by_cases hd' : d.file = f
    · left
      -- d comes behind c among the chunks of f
      unfold through at hpair
      rw [filter_append, filter_cons_of_pos (by simp [hfile])] at hpair
      have hrest := (pairwise_append.mp hpair).2.1
      have hend := rel_of_pairwise_cons hrest
        (mem_filter.mpr ⟨hd, by simp [hd']⟩)
      omega
    · exact hothers d hd hd'
  rw [hcontent]
  unfold replay
  rw [foldl_append, foldl_cons]
  have hkept := replay_of_notMem
    (overlay (replay b0 before) c.off c.len c.bytes) after (c.off + k) hlater
  exact hkept.trans (overlay_add _ _ hk)

/-- **Writes through a shared file are not lost.** The chunks of `f` lie in adjacent ranges, in the
order in which the inode lock was taken; each finished call has written its buffer in order; in the
end `f->off` has advanced by what the calls returned, and every byte is in the file unless a chunk
of another file came over it. -/
theorem shared_writes_not_lost (hquiet : Quiet init) (hhistory : init.history = [])
    (hresults : init.results = []) (hrun : WriteRun f init s) :
    Adjacent Chunk.off (init.off f) (through f s.history) ∧
    (through f s.history).Pairwise (fun c d => c.off + c.len ≤ d.off) ∧
    s.history.Pairwise (fun c d => c.turn < d.turn) ∧
    (∀ r ∈ s.results, r.call.file = f → ResultOk s.history r) ∧
    ((∀ p, s.pc p = .idle) →
      (s.off f : Int) = init.off f + returned f s.results ∧
      ∀ before c after, s.history = before ++ c :: after → c.file = f → ∀ k < c.len,
        (∀ d ∈ after, d.file ≠ f → c.off + k < d.off ∨ d.off + d.len ≤ c.off + k) →
          s.data.bytes (c.off + k) = c.bytes k) := by
  have hinv := inv_of_run hquiet hhistory hresults hrun
  refine ⟨hinv.laid, hinv.laid.pairwise.1, hinv.turns, hinv.results, fun hdone => ⟨?_, ?_⟩⟩
  · have hprogress : ∑ p, (s.pc p).progress f = 0 :=
      Finset.sum_eq_zero fun p _ => by rw [hdone p]; rfl
    rw [hinv.counted, hprogress, add_zero]
  · intro before c after hsplit hfile k hk hothers
    exact hinv.byte_kept hdone hsplit hfile hk hothers

end Runs

/-! ### Two writers and a reader -/

def emptyFile : State :=
  { data := { bytes := fun _ => 0, size := 0, mapped := 0, indirect := false, free := 100 }
    off := fun _ => 0
    lock := none
    pc := fun _ => .idle
    turn := 0
    history := []
    results := [] }

instance (src : Nat → Option UInt8) (n : Nat) : Decidable (Readable src n) :=
  inferInstanceAs (Decidable (∀ i < n, _))

instance (f : Fin NFILE) (s : State) : (a : Act) → Decidable (Plenty f s a)
  | .filewrite _ c => inferInstanceAs (Decidable (Readable c.src c.n))
  | .ilock p =>
    match h : s.pc p with
    | .waiting c own i => decidable_of_iff (s.off c.file + c.chunk i ≤ MAXFILE * BSIZE)
      (by simp only [Plenty, h])
    | .idle | .head .. | .copying .. | .copied .. | .advanced .. | .reading .. | .readLocked ..
    | .readDone => isTrue (by simp only [Plenty, h])
  | .copy _ => inferInstanceAs (Decidable (_ ≤ _))
  | .fileread _ _ _ => inferInstanceAs (Decidable (_ ≠ _))
  | .test _ | .advance _ | .iunlock _ | .readi _ _ | .blocks _ => isTrue trivial

def chunkActs (p : Slot) : List Act :=
  [.test p, .ilock p, .copy p, .copy p, .advance p, .iunlock p]

def twoWriters : List Act :=
  [.filewrite 1 { file := 0, src := fun _ => some 7, n := 2 },
   .filewrite 2 { file := 0, src := fun _ => some 9, n := 3 }, .fileread 3 1 10] ++
  chunkActs 2 ++ [.ilock 3, .readi 3 true, .iunlock 3] ++ chunkActs 1 ++ [.test 2, .test 1]

def Pc.isIdle : Pc → Bool
  | .idle => true
  | _ => false

theorem Pc.isIdle_iff (pc : Pc) : pc.isIdle = true ↔ pc = .idle := by
  cases pc <;> simp [Pc.isIdle]

theorem shared_writes_twoWriters : ∃ s, WriteRun 0 emptyFile s ∧ (∀ p, s.pc p = .idle) ∧
    s.history.map Chunk.off = [0, 3] ∧ s.off 0 = 5 ∧
    (s.off 0 : Int) = emptyFile.off 0 + returned 0 s.results := by
  have hacts : (runActs (stepIf step (Plenty 0)) emptyFile twoWriters).any
      (fun s => (∀ p, (s.pc p).isIdle = true) ∧ s.history.map Chunk.off = [0, 3] ∧ s.off 0 = 5) =
      true := by decide +kernel
  obtain ⟨s, hs, htest⟩ := (Option.any_eq_true _ _).mp hacts
  obtain ⟨hidle, hhistory, hoff⟩ := of_decide_eq_true htest
  have hdone : ∀ p, s.pc p = .idle := fun p => (s.pc p).isIdle_iff.mp (hidle p)
  have hrun : WriteRun 0 emptyFile s := Reachable.runIf (.start rfl) hs
  have hall := shared_writes_not_lost ⟨fun _ => rfl, rfl⟩ rfl rfl hrun
  exact ⟨s, hrun, hdone, hhistory, hoff, (hall.2.2.2.2 hdone).1⟩

end Xv6.SharedFile
