/-
  Xv6.Console.Reads — what successive reads return.

  As long as one process reads at a time, is not killed and has its destination mapped, the
  reads cut the stream of accepted bytes into pieces.
-/
import Xv6.Console.Discipline

namespace Xv6.Console

open Lib Lib.Monitor Function

/-! ## §1. Where a read stands. -/

def Pc.reading : Pc → Bool
  | .rEnter _ | .rLoop _ _ | .rWait _ _ | .rKilled _ _ | .rSleep _ _ | .rTake _ _ | .rChar _ _ _
  | .rBack _ _ | .rCopy _ _ _ | .rDone _ _ | .rUnlock => true
  | _ => false

/-- The reads that have returned are the first pieces of the stream; `rest` comes behind them. -/
def Served (x : Cons) (rest : List UInt8) : Prop :=
  cuts (x.reads.map Prod.fst) x.editor.accepted = some (x.reads.map Prod.snd, rest)

structure Partway (x : Cons) (target : Int) (got s : List UInt8) : Prop where
  served : Served x (got ++ s)
  plain : Plain got
  short : got.length < target

def Pc.progress : Pc → Cons → Prop
  | .rEnter _, x | .rUnlock, x => Served x x.editor.unread
  | .rLoop target got, x => Served x (got ++ x.editor.unread) ∧ Plain got ∧
    got.length ≤ target.toNat
  | .rWait target got, x | .rKilled target got, x | .rSleep target got, x | .rTake target got, x =>
    Partway x target got x.editor.unread
  | .rChar target got c, x => Partway x target got (c :: x.editor.unread)
  | .rBack target got, x => Partway x target got (CTRL_D :: x.editor.unread) ∧ got ≠ []
  | .rCopy target got c, x => Partway x target got (c :: x.editor.unread) ∧ c ≠ CTRL_D
  | .rDone target got, x => ∃ rest, Served x rest ∧ cut target rest = some (got, x.editor.unread)
  | _, _ => True

/-! ## §2. Others. -/

structure Grows (x x' : Cons) : Prop where
  reads : x'.reads = x.reads
  taken : x'.editor.taken = x.editor.taken
  accepted : ∃ t, x'.editor.accepted = x.editor.accepted ++ t

section Growth

variable {x x' : Cons} {rest s got : List UInt8} {target : Int} {c : UInt8}

theorem Grows.refl (x : Cons) : Grows x x := ⟨rfl, rfl, [], (List.append_nil _).symm⟩

theorem Grows.of_editor (hreads : x'.reads = x.reads) (hed : x'.editor = x.editor) : Grows x x' := by
  refine ⟨hreads, congrArg _ hed, [], ?_⟩
  rw [hed, List.append_nil]

theorem grows_key (hreads : x'.reads = x.reads) (hhist : x'.history = x.history) (c : UInt8) :
    Grows x (x'.note (.key c)) := by
  have hed : (x'.note (.key c)).editor = x.editor.key c := by
    rw [editor_note, Cons.editor, hhist]
    rfl
  obtain ⟨htaken, t, ht⟩ := x.editor.key_accepted c
  refine ⟨hreads, ?_, t, ?_⟩
  · rw [hed, htaken]
  · rw [hed, ht]

theorem Served.append {t : List UInt8} (h : Served x rest) (hreads : x'.reads = x.reads)
    (ht : x'.editor.accepted = x.editor.accepted ++ t) : Served x' (rest ++ t) := by
  unfold Served
  rw [hreads, ht]
  exact cuts_append h t

theorem progress_grows {l : Pc} (hg : Grows x x')
    (hbounded : x.editor.taken ≤ x.editor.accepted.length) (h : l.progress x) : l.progress x' := by
  obtain ⟨t, ht⟩ := hg.accepted
  have hunread : x'.editor.unread = x.editor.unread ++ t := by
    rw [Editor.unread, hg.taken, ht]
    exact List.drop_append_of_le_length hbounded
  have hserved : ∀ rest, Served x rest → Served x' (rest ++ t) := fun rest hs =>
    hs.append hg.reads ht
  have hpart : ∀ target got s, Partway x target got s → Partway x' target got (s ++ t) := by
    intro target got s hp
    refine ⟨?_, hp.plain, hp.short⟩
    rw [← List.append_assoc]
    exact hserved _ hp.served
  cases l with
  | rEnter | rUnlock =>
    show Served x' x'.editor.unread
    rw [hunread]
    exact hserved _ h
  | rLoop target got =>
    refine ⟨?_, h.2⟩
    rw [hunread, ← List.append_assoc]
    exact hserved _ h.1
  | rWait target got | rKilled target got | rSleep target got | rTake target got =>
    show Partway x' target got x'.editor.unread
    rw [hunread]
    exact hpart _ _ _ h
  | rChar target got c =>
    show Partway x' target got (c :: x'.editor.unread)
    rw [hunread]
    exact hpart _ _ _ h
  | rBack target got | rCopy target got c =>
    refine ⟨?_, h.2⟩
    rw [hunread]
    exact hpart _ _ _ h.1
  | rDone target got =>
    obtain ⟨rest, hs, hcut⟩ := h
    refine ⟨rest ++ t, hserved _ hs, ?_⟩
    rw [hunread]
    exact cutFrom_append hcut t
  | _ => trivial

end Growth

/-! ## §3. The reader's own steps. -/

section Own

variable {x x' : Cons} {target : Int} {got s : List UInt8} {c : UInt8} {k : Bool} {l l' : Pc}

section

variable (hplain : Plain got)

include hplain

theorem cut_full (hlen : target.toNat = got.length) (s : List UInt8) :
    cut target (got ++ s) = some (got, s) := by
  have hcut := cutFrom_plain hplain true 0 s
  rw [Nat.add_zero] at hcut
  rw [cut, hlen, hcut, cutFrom]
  show some (got ++ [], s) = _
  rw [List.append_nil]

section

variable (hshort : got.length < target) (s : List UInt8)

include hshort

theorem cut_next : ∃ k, cut target (got ++ s) =
      (cutFrom got.isEmpty (k + 1) s).map fun out => (got ++ out.1, out.2) := by
  refine ⟨target.toNat - got.length - 1, ?_⟩
  rw [cut, ← Bool.true_and got.isEmpty, ← cutFrom_plain hplain]
  congr 1
  omega

theorem cut_newline : cut target (got ++ NL :: s) = some (got ++ [NL], s) := by
  obtain ⟨k, hcut⟩ := cut_next hplain hshort (NL :: s)
  rw [hcut, cutFrom, if_neg (by decide), if_pos rfl]
  rfl

theorem cut_eof :
    cut target (got ++ CTRL_D :: s) = some (got, if got.isEmpty then s else CTRL_D :: s) := by
  obtain ⟨k, hcut⟩ := cut_next hplain hshort (CTRL_D :: s)
  rw [hcut, cutFrom, if_pos rfl]
  show some (got ++ [], _) = _
  rw [List.append_nil]

end

end

/-- **One step of the reader.** -/
theorem progress_own (h : Access false x false l x' l') (hl : l.reading = true)
    (hin : held l = true → Inside l x false) (hp : l.progress x) : l'.progress x' := by
  cases h with
  | call => cases hl
  | goesOn hn => exact ⟨hp.1, hp.2.1, hn⟩
  | full hn => exact ⟨_, hp.1, cut_full hp.2.1 (by have := hp.2.2; omega) _⟩
  | @take target got =>
    obtain ⟨htidy, hne⟩ := hin rfl
    have hunread := (htidy.rep.take hne).2
    have hed : x.take.editor = { x.editor with taken := x.editor.taken + 1 } := editor_note _ .take
    show Partway x.take target got (_ :: x.take.editor.unread)
    refine ⟨?_, hp.plain, hp.short⟩
    rw [Editor.unread, hed]
    show cuts _ x.take.editor.accepted = _
    rw [hed, ← hunread]
    exact hp.served
  | eofFirst => exact ⟨_, hp.served, cut_eof hp.plain hp.short _⟩
  | eofLater hgot => exact ⟨hp, hgot⟩
  | char hc => exact ⟨hp, hc⟩
  | @back target got =>
    have htook := hin rfl
    have hed : x.putBack.editor = { x.editor with taken := x.editor.taken - 1 } :=
      editor_note _ .putBack
    obtain ⟨hpart, hgot⟩ := hp
    have hcut := cut_eof hpart.plain hpart.short x.editor.unread
    refine ⟨got ++ CTRL_D :: x.editor.unread, ?_, ?_⟩
    · show cuts _ x.putBack.editor.accepted = _
      rw [hed]
      exact hpart.served
    · have hunread : x.putBack.editor.unread = CTRL_D :: x.editor.unread := by
        rw [Editor.unread, hed]
        exact htook.unread
      rw [hcut, hunread, if_neg (by rwa [List.isEmpty_iff])]
  | @copied target got c hc =>
    obtain ⟨hpart, hd⟩ := hp
    have hshort := hpart.short
    refine ⟨?_, ?_, ?_⟩
    · rw [List.append_assoc]
      exact hpart.served
    · intro b hb
      rcases List.mem_append.mp hb with hb | hb
      · exact hpart.plain b hb
      · rw [List.mem_singleton.mp hb]
        exact ⟨hd, hc⟩
    · rw [List.length_append, List.length_singleton]
      omega
  | newline => exact ⟨_, hp.1.served, cut_newline hp.1.plain hp.1.short _⟩
  | killed hk => cases hk
  | fault hf => cases hf
  | @done target got =>
    obtain ⟨rest, hserved, hcut⟩ := hp
    show cuts ((x.reads ++ [(target, got)]).map Prod.fst) x.editor.accepted =
      some ((x.reads ++ [(target, got)]).map Prod.snd, x.editor.unread)
    rw [List.map_append, List.map_append]
    exact cuts_concat hserved hcut
  | list | kill | backspace | plain | killOne | killEnd | erase | eraseNone | store | drop | commit
  | typed => cases hl
  | _ => exact hp

end Own

/-! ## §4. One reader at a time. -/

/-- consoleread is called only while nobody is in it, and no reader is killed. -/
def OneReader {n : Nat} (s : State n) : Act n Input → Prop
  | .go p (.read _) => s.pc p = .idle → (∀ q, (s.pc q).reading = false) ∧ s.killed p = false
  | .kill p => (s.pc p).reading = false
  | _ => True

structure Successive {n : Nat} (s : State n) : Prop where
  alone : ∀ p q, (s.pc p).reading = true → (s.pc q).reading = true → p = q
  alive : ∀ p, (s.pc p).reading = true → s.killed p = false
  quiet : (∀ p, (s.pc p).reading = false) → Served s.shared s.shared.editor.unread
  progress : ∀ p, (s.pc p).progress s.shared

section Steps

variable {x x' : Cons} {k : Bool} {l l' : Pc}

variable {faults : Bool}

theorem grows_access (h : Access faults x k l x' l') (hl : l.reading = false) : Grows x x' := by
  cases h with
  | call | kill | backspace | plain => exact .refl x
  | list | killEnd | eraseNone | drop | typed => exact grows_key rfl rfl _
  | killOne | store => exact .of_editor rfl rfl
  | erase | commit => refine grows_key ?_ ?_ _ <;> rfl
  | _ => cases hl

theorem reading_access (h : Access faults x k l x' l') :
    l'.reading = l.reading ∨ l = .idle ∧ ∃ n, l' = .rEnter n := by
  cases h with
  | call i =>
    cases i with
    | read n => exact .inr ⟨rfl, n, rfl⟩
    | key | copyout => exact .inl rfl
  | _ => exact .inl rfl

theorem progress_of_not_reading (h : l.reading = false) (x : Cons) : l.progress x := by
  cases l <;> trivial

theorem next_reading (h : ((prog faults).code l).next = some l') :
    (l'.reading = l.reading ∨ l = .rUnlock) ∧ (l.progress x → l'.progress x) := by
  cases l <;> cases h
  case rEnter target =>
    refine ⟨.inl rfl, fun hp => ⟨hp, ?_, Nat.zero_le _⟩⟩
    intro c hc
    cases hc
  case rUnlock => exact ⟨.inr rfl, fun _ => trivial⟩
  all_goals exact ⟨.inl rfl, id⟩

end Steps

section Runs

variable {n : Nat} {s s' : State n} {a : Act n Input}

structure Known (s : State n) : Prop where
  lock : LockInv (prog false) held s
  inside : RuleInv Tidy Inside s
  bounded : s.shared.editor.taken ≤ s.shared.editor.accepted.length

theorem known_of_run {ok : State n → Act n Input → Prop} (h : RunWith false ok s) : Known s := by
  obtain ⟨line, hrep⟩ := run_rep h
  exact ⟨run_lockInv (disciplined false) rfl h, run_inside h, hrep.bounded⟩

variable {x' : Cons} {p : Fin n}

section

variable (h : Successive s) (hk : Known s)

include h hk

theorem Successive.served (hg : Grows s.shared x')
    (hno : ∀ p, (s.pc p).reading = false) : Served x' x'.editor.unread :=
  -- between two reads the stream grows as it does before the first byte of one
  progress_grows (l := .rUnlock) hg hk.bounded (h.quiet hno)

theorem Successive.own (hm : s.mode p = .running) {l' : Pc}
    (hacc : Access false s.shared (s.killed p) (s.pc p) x' l')
    (hp : (s.pc p).reading = true) (hshared : s'.shared = x')
    (hpc : s'.pc = update s.pc p l') (hkilled : ∀ q, s'.killed q = s.killed q) :
    Successive s' := by
  have hl' : l'.reading = true := by
    rcases reading_access hacc with he | ⟨he, _⟩
    · rw [he, hp]
    · rw [he] at hp
      cases hp
  have hself : s'.pc p = l' := by rw [hpc, update_self]
  have hother : ∀ q, (s'.pc q).reading = true → q = p := by
    intro q hq
    by_contra hne
    rw [hpc, update_of_ne hne] at hq
    exact hne (h.alone q p hq hp)
  refine ⟨?_, ?_, ?_, ?_⟩
  · intro q r hq hr
    rw [hother q hq, hother r hr]
  · intro q hq
    rw [hother q hq, hkilled]
    exact h.alive p hp
  · intro hno
    have := hno p
    rw [hself, hl'] at this
    cases this
  · intro q
    by_cases hq : q = p
    · rw [hq, hself, hshared]
      rw [h.alive p hp] at hacc
      apply progress_own hacc hp _ (h.progress p)
      intro hheld
      exact inside_killed (hk.inside.holder p (hk.lock.of_running hm hheld))
    · apply progress_of_not_reading
      rw [← Bool.not_eq_true]
      exact fun hr => hq (hother q hr)

theorem Successive.other {l' : Pc}
    (hacc : Access false s.shared (s.killed p) (s.pc p) x' l') (hp : (s.pc p).reading = false)
    (hcall : l'.reading = true → (∀ q, (s.pc q).reading = false) ∧ s.killed p = false)
    (hshared : s'.shared = x') (hpc : s'.pc = update s.pc p l')
    (hkilled : ∀ q, s'.killed q = s.killed q) : Successive s' := by
  have hg := grows_access hacc hp
  have hself : s'.pc p = l' := by rw [hpc, update_self]
  have hother : ∀ q, q ≠ p → s'.pc q = s.pc q := by
    intro q hq
    rw [hpc, update_of_ne hq]
  cases hl' : l'.reading with
  | true =>
    -- the call: nobody else reads
    obtain ⟨hno, halive⟩ := hcall hl'
    have hq : ∀ q, (s'.pc q).reading = true → q = p := by
      intro q hq
      by_contra hne
      rw [hother q hne, hno q] at hq
      cases hq
    refine ⟨?_, ?_, ?_, ?_⟩
    · intro q r hqr hrr
      rw [hq q hqr, hq r hrr]
    · intro q hqr
      rw [hq q hqr, hkilled]
      exact halive
    · intro hnone
      have := hnone p
      rw [hself, hl'] at this
      cases this
    · intro q
      by_cases hqp : q = p
      · rcases reading_access hacc with he | ⟨_, m, he⟩
        · rw [hl', hp] at he
          cases he
        · rw [hqp, hself, he, hshared]
          exact h.served hk hg hno
      · apply progress_of_not_reading
        rw [hother q hqp]
        exact hno q
  | false =>
    have hsame : ∀ q, (s'.pc q).reading = (s.pc q).reading := by
      intro q
      by_cases hq : q = p
      · rw [hq, hself, hl', hp]
      · rw [hother q hq]
    refine ⟨?_, ?_, ?_, ?_⟩
    · intro q r hq hr
      rw [hsame] at hq hr
      exact h.alone q r hq hr
    · intro q hq
      rw [hsame] at hq
      rw [hkilled]
      exact h.alive q hq
    · intro hno
      rw [hshared]
      exact h.served hk hg fun q => (hsame q).symm.trans (hno q)
    · intro q
      rw [hshared]
      by_cases hq : q = p
      · rw [hq, hself]
        exact progress_of_not_reading hl' x'
      · rw [hother q hq]
        exact progress_grows hg hk.bounded (h.progress q)

end

theorem Successive.next (h : Successive s) {l : Pc}
    (hl : ((prog false).code (s.pc p)).next = some l) (hshared : s'.shared = s.shared)
    (hpc : s'.pc = update s.pc p l) (hkilled : ∀ q, s'.killed q = s.killed q) :
    Successive s' := by
  obtain ⟨hreading, hprogress⟩ := next_reading (x := s.shared) hl
  have hself : s'.pc p = l := by rw [hpc, update_self]
  have hother : ∀ q, q ≠ p → s'.pc q = s.pc q := by
    intro q hq
    rw [hpc, update_of_ne hq]
  have hend : s.pc p = .rUnlock → l.reading = false := by
    intro he
    rw [he] at hl
    cases hl
    rfl
  have hold : ∀ q, (s'.pc q).reading = true → (s.pc q).reading = true := by
    intro q hq
    by_cases hqp : q = p
    · rw [hqp, hself] at hq
      rcases hreading with he | he
      · rw [hqp, ← he]
        exact hq
      · rw [hend he] at hq
        cases hq
    · rwa [hother q hqp] at hq
  refine ⟨?_, ?_, ?_, ?_⟩
  · exact fun q r hq hr => h.alone q r (hold q hq) (hold r hr)
  · intro q hq
    rw [hkilled]
    exact h.alive q (hold q hq)
  · intro hno
    rw [hshared]
    rcases hreading with he | he
    · apply h.quiet
      intro q
      by_cases hqp : q = p
      · rw [hqp, ← he, ← hself]
        exact hno p
      · rw [← hother q hqp]
        exact hno q
    · -- the read has ended
      have hp := h.progress p
      rw [he] at hp
      exact hp
  · intro q
    rw [hshared]
    by_cases hqp : q = p
    · rw [hqp, hself]
      exact hprogress (h.progress p)
    · rw [hother q hqp]
      exact h.progress q

theorem killed_go {i : Input} (hs : Step (prog false) (.go p i) s s') (q : Fin n) :
    s'.killed q = s.killed q := by
  rcases hs.killed_cases q with he | he
  · exact he
  · cases he

theorem call_of_reading {f : Cons → Bool → Input → Cons × Pc}
    (hc : (prog false).code (s.pc p) = .access f) {i : Input} (hp : (s.pc p).reading = false)
    (hl : (f s.shared (s.killed p) i).2.reading = true) :
    s.pc p = .idle ∧ ∃ m, i = .read m := by
  have hacc := access_of_code hc s.shared (s.killed p) i
  rcases reading_access hacc with he | ⟨hidle, m, hm⟩
  · rw [hl, hp] at he
    cases he
  · refine ⟨hidle, ?_⟩
    rw [hidle] at hc
    cases hc
    cases i with
    | read m' => exact ⟨m', rfl⟩
    | key | copyout => cases hm

theorem successive_step (h : Successive s) (hk : Known s) (hs : Step (prog false) a s s')
    (hok : OneReader s a) : Successive s' := by
  rcases hs.moves with ⟨p, f, i, rfl, hm, hc, hx, hpc⟩ | ⟨i, hx, _⟩ |
    ⟨p, l, i, rfl, hl, hx, hpc⟩ | ⟨hx, hpc⟩
  · have hacc := access_of_code hc s.shared (s.killed p) i
    cases hp : (s.pc p).reading with
    | true => exact h.own hk hm hacc hp hx hpc (killed_go hs)
    | false =>
      refine h.other hk hacc hp ?_ hx hpc (killed_go hs)
      intro hl
      obtain ⟨hidle, m, rfl⟩ := call_of_reading hc hp hl
      exact hok hidle
  · cases hx
  · exact h.next hl hx hpc (killed_go hs)
  · refine ⟨hpc ▸ h.alone, ?_, hpc ▸ hx ▸ h.quiet, hpc ▸ hx ▸ h.progress⟩
    intro q hq
    rw [hpc] at hq
    rcases hs.killed_cases q with he | rfl
    · rw [he]
      exact h.alive q hq
    · rw [show (s.pc q).reading = false from hok] at hq
      cases hq

theorem run_successive (h : RunWith false OneReader s) : Successive s := by
  apply Reachable.invariant_with Known Successive (fun s hs => known_of_run hs) _ _ h
  · intro s hs
    rw [hs]
    exact ⟨(fun _ _ hp => nomatch hp), (fun _ hp => nomatch hp), fun _ => rfl, fun _ => trivial⟩
  · intro s s' hk _ hsucc ⟨a, hs, hok⟩
    exact successive_step hsucc hk hs hok

end Runs

/-! ## §5. The line discipline. -/

theorem accepted_access {faults : Bool} {x x' : Cons} {k : Bool} {l l' : Pc}
    (h : Access faults x k l x' l') : x.editor.accepted <+: x'.editor.accepted := by
  cases hread : l.reading with
  | false =>
    obtain ⟨t, ht⟩ := (grows_access h hread).accepted
    exact ⟨t, ht.symm⟩
  | true =>
    cases h with
    | take =>
      rw [show x.take.editor = _ from editor_note _ .take]
      exact List.prefix_rfl
    | back =>
      rw [show x.putBack.editor = _ from editor_note _ .putBack]
      exact List.prefix_rfl
    | list | kill | backspace | plain | killOne | killEnd | erase | eraseNone | store | drop
    | commit | typed => cases hread
    | _ => exact List.prefix_rfl

theorem accepted_step {n : Nat} {faults : Bool} {s s' : State n} {a : Act n Input}
    (hs : Step (prog faults) a s s') : s.shared.editor.accepted <+: s'.shared.editor.accepted := by
  rcases hs.moves with ⟨p, f, i, _, _, hc, hx, _⟩ | ⟨i, hx, _⟩ | ⟨p, l, i, _, _, hx, _⟩ | ⟨hx, _⟩
  · rw [hx]
    exact accepted_access (access_of_code hc s.shared (s.killed p) i)
  · cases hx
  · rw [hx]
  · rw [hx]

/-- **The line discipline of the console.** The indices keep their order, the cells from r to w hold
the accepted bytes not read so far, and no accepted byte is taken back. Reads one after the other,
with good addresses and no kill, return the first pieces of what was accepted, and after a read that
ends at ^D the next one returns nothing. -/
theorem console_line_discipline {n : Nat} (s : State n) :
    (∀ faults ok, RunWith faults ok s →
      (s.shared.w - s.shared.r).toNat ≤ (s.shared.e - s.shared.r).toNat ∧
      (s.shared.e - s.shared.r).toNat ≤ INPUT_BUF_SIZE ∧
      Ring.Segment s.shared.buf s.shared.r
        ((replay s.shared.history).accepted.drop (replay s.shared.history).taken) s.shared.w ∧
      ∀ a s', Step (prog faults) a s s' →
        (replay s.shared.history).accepted <+: (replay s'.shared.history).accepted) ∧
    (RunWith false OneReader s → (∀ p, (s.pc p).reading = false) →
      cuts (s.shared.reads.map Prod.fst) (replay s.shared.history).accepted =
        some (s.shared.reads.map Prod.snd,
          (replay s.shared.history).accepted.drop (replay s.shared.history).taken)) ∧
    (∀ (m m' : Int) (stream r rest : List UInt8), cut m stream = some (r, rest) → r ≠ [] →
      r.length < m.toNat → (∀ c ∈ r, c ≠ NL) → 0 < m' →
      ∃ rest', rest = CTRL_D :: rest' ∧ cut m' rest = some ([], rest')) := by
  refine ⟨?_, ?_, ?_⟩
  · intro faults ok h
    obtain ⟨line, hrep⟩ := run_rep h
    obtain ⟨horder, hfits⟩ := hrep.order
    exact ⟨horder, hfits, hrep.unread, fun a s' hs => accepted_step hs⟩
  · intro h hno
    exact (run_successive h).quiet hno
  · intro m m' stream r rest h hr hshort hnl hm'
    exact cut_before_eof h hr hshort hnl hm'

instance {n : Nat} (s : State n) (a : Act n Input) : Decidable (OneReader s a) := by
  cases a with
  | go p i => cases i <;> simp only [OneReader] <;> infer_instance
  | kill p => simp only [OneReader]; infer_instance
  | env i => exact .isTrue trivial

/-- Somebody types `hi`, a backspace, `o` and a carriage return; then there is
a read of ten bytes. -/
def typeAndRead : List (Act 1 Input) :=
  let keys : List (UInt8 × Nat) := [(104, 6), (105, 6), (CTRL_H, 5), (111, 6), (CR, 9)]
  keys.flatMap (fun k => List.replicate k.2 (.go 0 (.key k.1))) ++
    .go 0 (.read 10) :: List.replicate 18 (.go 0 (.copyout true))

theorem console_line_discipline_typeAndRead : ∃ s : State 1, RunWith false OneReader s ∧
    s.shared.reads = [(10, [104, 111, NL])] ∧
    cuts [10] (replay s.shared.history).accepted = some ([[104, 111, NL]], []) := by
  have hacts : (runActs (prog false) OneReader (start Cons.init .idle) typeAndRead).any
      (fun s : State 1 => s.pc 0 = .idle ∧ s.shared.reads = [(10, [104, 111, NL])] ∧
        s.shared.editor.unread = []) = true := by
    decide +kernel
  obtain ⟨s, hs, htest⟩ := exists_run_runActs hacts
  obtain ⟨hpc, hreads, hunread⟩ := of_decide_eq_true htest
  have hrun : RunWith false OneReader s := hs
  refine ⟨s, hrun, hreads, ?_⟩
  have hno : ∀ p, (s.pc p).reading = false := by
    intro p
    rw [Fin.fin_one_eq_zero p, hpc]
    rfl
  have hcuts := (console_line_discipline s).2.1 hrun hno
  have hrest : (replay s.shared.history).accepted.drop (replay s.shared.history).taken = [] :=
    hunread
  rw [hreads, hrest] at hcuts
  exact hcuts

end Xv6.Console
