/-
  Xv6.Lib.Locks — spin locks on a multiprocessor.

  A `Stmt` is what a control path does to locks: branches on data are left open.  If every
  path acquires locks in increasing rank (`Stmt.ok`), no CPUs ever wait in a circle.
-/
import Xv6.Lib.Run

namespace Xv6.Lib.Locks

open Function

/-! ## §1. Paths. -/

/-- What a control path does to locks. -/
inductive Stmt (L P : Type) where
  | skip
  | acquire (l : L)
  | release (l : L)
  | seq (s t : Stmt L P)
  | choice (s t : Stmt L P)
  | pick (f : Nat → Stmt L P)
  | loop (s : Stmt L P)
  /-- The process goes back to the scheduler of its CPU. -/
  | sched
  /-- The scheduler runs a process. -/
  | swtch (p : P)
  | halt

namespace Stmt

variable {L P : Type}

def block : List (Stmt L P) → Stmt L P
  | [] => skip
  | s :: l => seq s (block l)

def locked (l : L) (s : Stmt L P) : Stmt L P := block [acquire l, s, release l]

def maybe (s : Stmt L P) : Stmt L P := choice s skip

end Stmt

/-! ## §2. The machine. -/

structure Cpu (L P : Type) where
  cont : List (Stmt L P)
  held : List L
  proc : Option P
  /-- What remains of the scheduler while a process runs. -/
  back : List (Stmt L P)

/-- `n` CPUs, and the processes that none of them runs. -/
structure State (n : Nat) (L P : Type) where
  cpu : Fin n → Cpu L P
  suspended : P → Option (List (Stmt L P))

/-- What an interrupt does on a CPU, what a process calls, and one round of a scheduler. -/
structure Kernel (L P K R : Type) where
  own : P → L
  intr : Nat → Option P → Stmt L P
  call : P → K → Stmt L P
  round : R → Stmt L P

inductive Move (n : Nat) (P K R : Type) where
  /-- The next step of a CPU; the number decides a branch. -/
  | exec (c : Fin n) (branch : Nat)
  | interrupt (c : Fin n)
  | call (c : Fin n) (k : K)
  | round (c : Fin n) (r : R)
  /-- A suspended process is replaced by a new one. -/
  | fresh (p : P)

namespace Kernel

variable {n : Nat} {L P K R : Type} [DecidableEq L] [DecidableEq P]

def setCpu (s : State n L P) (c : Fin n) (x : Cpu L P) : State n L P :=
  { s with cpu := update s.cpu c x }

/-- The next step of CPU `c`.  It is stuck at an `acquire` of a lock that
another CPU holds. -/
def exec (own : P → L) (s : State n L P) (c : Fin n) (branch : Nat) : Option (State n L P) :=
  let x := s.cpu c
  match x.cont with
  | [] => none
  | .skip :: k => some (setCpu s c { x with cont := k })
  | .acquire l :: k =>
    if l ∈ x.held then some (setCpu s c { x with cont := .halt :: k })
    else if ∃ d, l ∈ (s.cpu d).held then none
    else some (setCpu s c { x with cont := k, held := l :: x.held })
  | .release l :: k =>
    if l ∈ x.held then some (setCpu s c { x with cont := k, held := x.held.erase l })
    else some (setCpu s c { x with cont := .halt :: k })
  | .seq a b :: k => some (setCpu s c { x with cont := a :: b :: k })
  | .choice a b :: k => some (setCpu s c { x with cont := (if branch = 0 then a else b) :: k })
  | .pick f :: k => some (setCpu s c { x with cont := f branch :: k })
  | .loop a :: k => some (setCpu s c { x with cont := if branch = 0 then a :: .loop a :: k else k })
  | .sched :: k =>
    match x.proc with
    | none => none
    | some p =>
      if x.held = [own p] then
        some
          { cpu := update s.cpu c { x with cont := x.back, proc := none }
            suspended := update s.suspended p (some k) }
      else some (setCpu s c { x with cont := .halt :: k })
  | .swtch p :: k =>
    match x.proc, s.suspended p with
    | none, some kp =>
      some
        { cpu := update s.cpu c { x with cont := kp, proc := some p, back := k }
          suspended := update s.suspended p none }
    | none, none => some (setCpu s c { x with cont := k })
    | some _, _ => none
  | .halt :: _ => none

variable (kernel : Kernel L P K R)

/-- A new process starts with its own lock held by the scheduler. -/
def start (p : P) : List (Stmt L P) := [.release (kernel.own p)]

def step (s : State n L P) : Move n P K R → Option (State n L P)
  | .exec c branch => exec kernel.own s c branch
  | .interrupt c =>
    if (s.cpu c).held = [] then
      some (setCpu s c
        { s.cpu c with cont := kernel.intr c.val (s.cpu c).proc :: (s.cpu c).cont })
    else none
  | .call c k =>
    match (s.cpu c).cont, (s.cpu c).proc with
    | [], some p => some (setCpu s c { s.cpu c with cont := [kernel.call p k] })
    | _, _ => none
  | .round c r =>
    match (s.cpu c).cont, (s.cpu c).proc with
    | [], none => some (setCpu s c { s.cpu c with cont := [kernel.round r] })
    | _, _ => none
  | .fresh p =>
    (s.suspended p).map fun _ =>
      { s with suspended := update s.suspended p (some (kernel.start p)) }

def boot : State n L P where
  cpu _ := { cont := [], held := [], proc := none, back := [] }
  suspended p := some (kernel.start p)

def Allows (allowed : K → Prop) : Move n P K R → Prop
  | .call _ k => allowed k
  | _ => True

def RunWith (allowed : K → Prop) : State n L P → Prop :=
  Reachable (· = kernel.boot) fun s s' => ∃ m, Allows allowed m ∧ kernel.step s m = some s'

end Kernel

def Cpu.asks {L P : Type} (x : Cpu L P) : Option L :=
  match x.cont with
  | .acquire l :: _ => some l
  | _ => none

/-- `c` spins in `acquire` on a lock that `d` holds. -/
def Spins {n : Nat} {L P : Type} (s : State n L P) (c d : Fin n) : Prop :=
  ∃ l, (s.cpu c).asks = some l ∧ l ∈ (s.cpu d).held

/-- A circle of CPUs, each of which spins on a lock that the next one holds. -/
def Deadlocked {n : Nat} {L P : Type} (s : State n L P) : Prop :=
  ∃ c, Relation.TransGen (Spins s) c c

/-! ## §3. Paths in order. -/

section Ok

variable {L P : Type} [DecidableEq L] (rank : L → Nat) (own : P → L)

namespace Stmt

/-- Started with the locks `h`, the path acquires in increasing rank, releases what it holds, and
ends in `Q`. `me` is the process. -/
def ok (me : Option P) : Stmt L P → (List L → Prop) → List L → Prop
  | skip, Q, h => Q h
  | acquire l, Q, h => (∀ l' ∈ h, rank l' < rank l) ∧ Q (l :: h)
  | release l, Q, h => l ∈ h ∧ Q (h.erase l)
  | seq s t, Q, h => s.ok me (t.ok me Q) h
  | choice s t, Q, h => s.ok me Q h ∧ t.ok me Q h
  | pick f, Q, h => ∀ i, (f i).ok me Q h
  | loop s, Q, h => ∃ I : List L → Prop, I h ∧ (∀ h, I h → s.ok me I h) ∧ ∀ h, I h → Q h
  -- with more than the own lock `sched` panics
  | sched, Q, h => ∀ p, me = some p → h = [own p] → Q h
  | swtch p, Q, h => me = none → h = [own p] ∧ Q h
  | halt, _, _ => True

def Balanced (me : Option P) (s : Stmt L P) (h : List L) : Prop := s.ok rank own me (· = h) h

end Stmt

variable {rank own} {me : Option P} {s t : Stmt L P} {Q R : List L → Prop} {h : List L} {l : L}

namespace Stmt

theorem ok_mono (hs : s.ok rank own me Q h) (hQR : ∀ h, Q h → R h) : s.ok rank own me R h := by
  induction s generalizing Q R h with
  | skip => exact hQR h hs
  | acquire l | release l => exact ⟨hs.1, hQR _ hs.2⟩
  | seq s t ihs iht => exact ihs hs fun h ht => iht ht hQR
  | choice s t ihs iht => exact ⟨ihs hs.1 hQR, iht hs.2 hQR⟩
  | pick f ih => exact fun i => ih i (hs i) hQR
  | loop s ih =>
    obtain ⟨I, hI, hbody, hend⟩ := hs
    exact ⟨I, hI, hbody, fun h hi => hQR h (hend h hi)⟩
  | sched => exact fun p hp hh => hQR h (hs p hp hh)
  | swtch p => exact fun hme => ⟨(hs hme).1, hQR h (hs hme).2⟩
  | halt => trivial

theorem Balanced.then (hs : s.Balanced rank own me h) (hQ : Q h) : s.ok rank own me Q h :=
  ok_mono hs fun h' e => by
    rw [e]
    exact hQ

theorem Balanced.skip : (skip : Stmt L P).Balanced rank own me h := rfl

section

variable (hs : s.Balanced rank own me h) (ht : t.Balanced rank own me h)

include hs ht

theorem Balanced.seq : (seq s t).Balanced rank own me h := hs.then ht

theorem Balanced.choice : (choice s t).Balanced rank own me h := ⟨hs, ht⟩

end

theorem Balanced.pick {f : Nat → Stmt L P} (hf : ∀ i, (f i).Balanced rank own me h) :
    (pick f).Balanced rank own me h := hf

theorem Balanced.maybe (hs : s.Balanced rank own me h) : (maybe s).Balanced rank own me h :=
  hs.choice .skip

theorem Balanced.loop (hs : s.Balanced rank own me h) : (loop s).Balanced rank own me h := by
  refine ⟨(· = h), rfl, ?_, fun _ => id⟩
  intro h' e
  rw [e]
  exact hs

variable {b : List (Stmt L P)}

theorem Balanced.block (hb : ∀ s ∈ b, s.Balanced rank own me h) :
    (block b).Balanced rank own me h := by
  induction b with
  | nil => exact .skip
  | cons s b ih =>
    have hs := hb s List.mem_cons_self
    exact hs.seq (ih fun s hs => hb s (List.mem_cons_of_mem _ hs))

theorem Balanced.locked (hl : ∀ l' ∈ h, rank l' < rank l) (hs : s.Balanced rank own me (l :: h)) :
    (locked l s).Balanced rank own me h := by
  refine ⟨hl, hs.then ⟨List.mem_cons_self, ?_⟩⟩
  show (l :: h).erase l = h
  rw [List.erase_cons_head]

theorem Balanced.cons (hs : s.Balanced rank own me h)
    (hb : (Stmt.block b).ok rank own me Q h) : (Stmt.block (s :: b)).ok rank own me Q h :=
  hs.then hb

theorem ok_acquire_cons (hl : ∀ l' ∈ h, rank l' < rank l)
    (hb : (block b).ok rank own me Q (l :: h)) :
    (block (acquire l :: b)).ok rank own me Q h := ⟨hl, hb⟩

theorem ok_release_cons (hl : l ∈ h) (hb : (block b).ok rank own me Q (h.erase l)) :
    (block (release l :: b)).ok rank own me Q h := ⟨hl, hb⟩

theorem ok_singleton (hs : s.ok rank own me Q h) : (block [s]).ok rank own me Q h :=
  ok_mono hs fun _ => id

theorem ok_block_append {a b : List (Stmt L P)} : (block (a ++ b)).ok rank own me Q h ↔
      (block a).ok rank own me ((block b).ok rank own me Q) h := by
  induction a generalizing h with
  | nil => exact Iff.rfl
  | cons s a ih =>
    show s.ok rank own me ((block (a ++ b)).ok rank own me Q) h ↔
      s.ok rank own me ((block a).ok rank own me ((block b).ok rank own me Q)) h
    rw [show (block (a ++ b)).ok rank own me Q =
      (block a).ok rank own me ((block b).ok rank own me Q) from funext fun h => propext ih]

end Stmt

/-- What remains of a path is in order, and ends without locks. -/
def contOk (rank : L → Nat) (own : P → L) (me : Option P) : List (Stmt L P) → List L → Prop
  | [], h => h = []
  | s :: k, h => s.ok rank own me (contOk rank own me k) h

theorem contOk_singleton (hs : s.Balanced rank own me []) : contOk rank own me [s] [] := hs

end Ok

/-! ## §4. Runs. -/

/-- A kernel all of whose paths acquire locks in increasing rank. -/
structure Orderly {L P K R : Type} [DecidableEq L] (kernel : Kernel L P K R) (rank : L → Nat)
    (allowed : K → Prop) : Prop where
  intr : ∀ c me, (kernel.intr c me).Balanced rank kernel.own me []
  call : ∀ p k, allowed k → (kernel.call p k).Balanced rank kernel.own (some p) []
  round : ∀ r, (kernel.round r).Balanced rank kernel.own none []

/-- What every CPU, every scheduler in wait and every suspended process has
still to do is in order. -/
structure Inv {n : Nat} {L P : Type} [DecidableEq L] (rank : L → Nat) (own : P → L)
    (s : State n L P) : Prop where
  cont : ∀ c, contOk rank own (s.cpu c).proc (s.cpu c).cont (s.cpu c).held
  back : ∀ c p, (s.cpu c).proc = some p → contOk rank own none (s.cpu c).back [own p]
  suspended : ∀ p k, s.suspended p = some k → contOk rank own (some p) k [own p]

section Order

variable {n : Nat} {L P K R : Type} [DecidableEq L] {rank : L → Nat} {kernel : Kernel L P K R}
  {s : State n L P} {c : Fin n}

theorem contOk_start (p : P) : contOk rank kernel.own (some p) (kernel.start p) [kernel.own p] := by
  refine ⟨List.mem_singleton_self _, ?_⟩
  show [kernel.own p].erase (kernel.own p) = []
  rw [List.erase_cons_head]

theorem inv_boot : Inv rank kernel.own (kernel.boot : State n L P) := by
  constructor
  · exact fun _ => rfl
  · exact fun _ _ h => nomatch h
  · intro p k hk
    cases hk
    exact contOk_start p

variable {own : P → L}

section

variable (h : Inv rank own s)

include h

theorem Inv.set {x : Cpu L P} (hproc : x.proc = (s.cpu c).proc)
    (hback : x.back = (s.cpu c).back) (hcont : contOk rank own (s.cpu c).proc x.cont x.held) :
    Inv rank own (Kernel.setCpu s c x) := by
  refine ⟨fun d => ?_, fun d p hp => ?_, h.suspended⟩
  · by_cases hd : d = c
    · subst hd
      simp only [Kernel.setCpu, update_self]
      rw [hproc]
      exact hcont
    · simp only [Kernel.setCpu, update_of_ne hd]
      exact h.cont d
  · by_cases hd : d = c
    · subst hd
      simp only [Kernel.setCpu, update_self] at hp ⊢
      rw [hback]
      exact h.back d p (hproc ▸ hp)
    · simp only [Kernel.setCpu, update_of_ne hd] at hp ⊢
      exact h.back d p hp

theorem Inv.rank_lt {l l' : L}
    (hc : (s.cpu c).asks = some l') (hl : l ∈ (s.cpu c).held) : rank l < rank l' := by
  have hcont := h.cont c
  unfold Cpu.asks at hc
  split at hc
  · next m k hk =>
    cases hc
    rw [hk] at hcont
    exact hcont.1 l hl
  · cases hc

theorem Inv.rank_chain {d : Fin n}
    (hcd : Relation.TransGen (Spins s) c d) {l l' : L} (hc : (s.cpu c).asks = some l)
    (hd : (s.cpu d).asks = some l') : rank l < rank l' := by
  induction hcd generalizing l' with
  | single hspin =>
    obtain ⟨m, hm, hheld⟩ := hspin
    rw [hc] at hm
    cases hm
    exact h.rank_lt hd hheld
  | tail _ hspin ih =>
    obtain ⟨m, hm, hheld⟩ := hspin
    have hlm := ih hm
    have hml := h.rank_lt hd hheld
    omega

/-- **No circle.** -/
theorem Inv.acyclic : ¬ Deadlocked s := by
  intro ⟨c, hcc⟩
  obtain ⟨d, ⟨l, hc, _⟩, _⟩ := Relation.TransGen.head'_iff.mp hcc
  have := h.rank_chain hcc hc hc
  omega

end

end Order

section Runs

variable {n : Nat} {L P K R : Type} [DecidableEq L] [DecidableEq P] {rank : L → Nat}
  {kernel : Kernel L P K R} {allowed : K → Prop} {s s' : State n L P} {c : Fin n}

variable {own : P → L} {l : List (Move n P K R)}

theorem Inv.sched (h : Inv rank own s) {p : P} (hp : (s.cpu c).proc = some p)
    (hheld : (s.cpu c).held = [own p]) {k : List (Stmt L P)}
    (hk : contOk rank own (some p) k [own p]) :
    Inv rank own
      { cpu := update s.cpu c { s.cpu c with cont := (s.cpu c).back, proc := none }
        suspended := update s.suspended p (some k) } := by
  refine ⟨fun d => ?_, fun d q hq => ?_, fun q kq hq => ?_⟩
  · by_cases hd : d = c
    · subst hd
      simp only [update_self]
      rw [hheld]
      exact h.back d p hp
    · simp only [update_of_ne hd]
      exact h.cont d
  · by_cases hd : d = c
    · subst hd
      simp only [update_self] at hq
      cases hq
    · simp only [update_of_ne hd] at hq ⊢
      exact h.back d q hq
  · by_cases hqp : q = p
    · subst hqp
      simp only [update_self, Option.some.injEq] at hq
      rw [← hq]
      exact hk
    · simp only [update_of_ne hqp] at hq
      exact h.suspended q kq hq

theorem Inv.swtch (h : Inv rank own s) {p : P} {k kp : List (Stmt L P)}
    (hheld : (s.cpu c).held = [own p]) (hk : contOk rank own none k [own p])
    (hkp : s.suspended p = some kp) :
    Inv rank own
      { cpu := update s.cpu c { s.cpu c with cont := kp, proc := some p, back := k }
        suspended := update s.suspended p none } := by
  refine ⟨fun d => ?_, fun d q hq => ?_, fun q kq hq => ?_⟩
  · by_cases hd : d = c
    · subst hd
      simp only [update_self]
      rw [hheld]
      exact h.suspended p kp hkp
    · simp only [update_of_ne hd]
      exact h.cont d
  · by_cases hd : d = c
    · subst hd
      simp only [update_self, Option.some.injEq] at hq ⊢
      rw [← hq]
      exact hk
    · simp only [update_of_ne hd] at hq ⊢
      exact h.back d q hq
  · by_cases hqp : q = p
    · subst hqp
      simp only [update_self] at hq
      cases hq
    · simp only [update_of_ne hqp] at hq
      exact h.suspended q kq hq

theorem exec_inv {branch : Nat} (h : Inv rank own s)
    (hs : Kernel.exec own s c branch = some s') : Inv rank own s' := by
  have hcont := h.cont c
  unfold Kernel.exec at hs
  dsimp only at hs
  split at hs
  · cases hs
  · -- skip
    next k hk =>
      rw [hk] at hcont
      cases hs
      exact h.set rfl rfl hcont
  · -- acquire
    next l k hk =>
      rw [hk] at hcont
      split at hs
      · cases hs
        exact h.set rfl rfl trivial
      · split at hs
        · cases hs
        · cases hs
          exact h.set rfl rfl hcont.2
  · -- release
    next l k hk =>
      rw [hk] at hcont
      split at hs
      · cases hs
        exact h.set rfl rfl hcont.2
      · cases hs
        exact h.set rfl rfl trivial
  · -- seq
    next a b k hk =>
      rw [hk] at hcont
      cases hs
      exact h.set rfl rfl hcont
  · -- choice
    next a b k hk =>
      rw [hk] at hcont
      cases hs
      refine h.set rfl rfl ?_
      dsimp only
      split
      · exact hcont.1
      · exact hcont.2
  · -- pick
    next f k hk =>
      rw [hk] at hcont
      cases hs
      exact h.set rfl rfl (hcont branch)
  · -- loop: the invariant of the loop holds again after its body
    next a k hk =>
      rw [hk] at hcont
      obtain ⟨I, hI, hbody, hend⟩ := hcont
      cases hs
      refine h.set rfl rfl ?_
      dsimp only
      split
      · exact Stmt.ok_mono (hbody _ hI) fun h' hi => ⟨I, hi, hbody, hend⟩
      · exact hend _ hI
  · -- sched
    next k hk =>
      rw [hk] at hcont
      split at hs
      · cases hs
      · next p hp =>
        split at hs
        · next hheld =>
          cases hs
          have hrest : contOk rank own (some p) k [own p] := by
            have := hcont p hp hheld
            rwa [hp, hheld] at this
          exact h.sched hp hheld hrest
        · cases hs
          exact h.set rfl rfl trivial
  · -- swtch
    next p k hk =>
      rw [hk] at hcont
      split at hs
      · next kp hp hkp =>
        cases hs
        rw [hp] at hcont
        obtain ⟨hheld, hrest⟩ := hcont rfl
        rw [hheld] at hrest
        exact h.swtch hheld hrest hkp
      · next hp hkp =>
        cases hs
        rw [hp] at hcont
        refine h.set rfl rfl ?_
        rw [hp]
        exact (hcont rfl).2
      · cases hs
  · cases hs

/-- **One move** keeps everything in order. -/
theorem step_inv (hk : Orderly kernel rank allowed) {m : Move n P K R}
    (hm : Kernel.Allows allowed m) (h : Inv rank kernel.own s) (hs : kernel.step s m = some s') :
    Inv rank kernel.own s' := by
  cases m with
  | exec c branch => exact exec_inv h hs
  | interrupt c =>
    simp only [Kernel.step] at hs
    split at hs
    · next hheld =>
      cases hs
      refine h.set rfl rfl ?_
      have hrest := h.cont c
      rw [hheld] at hrest ⊢
      exact (hk.intr c.val _).then hrest
    · cases hs
  | call c k =>
    simp only [Kernel.step] at hs
    split at hs
    · next p hcont hp =>
      cases hs
      have hheld := h.cont c
      rw [hcont] at hheld
      refine h.set rfl rfl ?_
      rw [show (s.cpu c).held = [] from hheld, hp]
      exact contOk_singleton (hk.call p k hm)
    · cases hs
  | round c r =>
    simp only [Kernel.step] at hs
    split at hs
    · next hcont hp =>
      cases hs
      have hheld := h.cont c
      rw [hcont] at hheld
      refine h.set rfl rfl ?_
      rw [show (s.cpu c).held = [] from hheld, hp]
      exact contOk_singleton (hk.round r)
    · cases hs
  | fresh p =>
    obtain ⟨kp, hkp, rfl⟩ := Option.map_eq_some_iff.mp hs
    refine ⟨h.cont, h.back, fun q k hq => ?_⟩
    by_cases hqp : q = p
    · subst hqp
      simp only [update_self, Option.some.injEq] at hq
      rw [← hq]
      exact contOk_start q
    · simp only [update_of_ne hqp] at hq
      exact h.suspended q k hq

theorem run_inv (hk : Orderly kernel rank allowed) (h : kernel.RunWith allowed s) :
    Inv rank kernel.own s := by
  refine Reachable.invariant (Inv rank kernel.own) (fun s hs => ?_) ?_ h
  · rw [hs]
    exact inv_boot
  · intro s s' hi ⟨m, hm, hs⟩
    exact step_inv hk hm hi hs

/-! ## §5. Runs that are written out. -/

def Kernel.runMoves (kernel : Kernel L P K R) :
    State n L P → List (Move n P K R) → Option (State n L P)
  | s, [] => some s
  | s, m :: l => (kernel.step s m).bind fun s => kernel.runMoves s l

theorem run_runMoves (h : kernel.RunWith allowed s)
    (hl : ∀ m ∈ l, Kernel.Allows allowed m) (hr : kernel.runMoves s l = some s') :
    kernel.RunWith allowed s' := by
  induction l generalizing s with
  | nil =>
    cases hr
    exact h
  | cons m l ih =>
    obtain ⟨s₁, hs, hr⟩ := Option.bind_eq_some_iff.mp hr
    have hm := hl m List.mem_cons_self
    exact ih (h.next ⟨m, hm, hs⟩) (fun m hm => hl m (List.mem_cons_of_mem _ hm)) hr

theorem exists_run_runMoves {test : State n L P → Bool} (hl : ∀ m ∈ l, Kernel.Allows allowed m)
    (hr : (kernel.runMoves kernel.boot l).any test = true) :
    ∃ s, kernel.RunWith allowed s ∧ test s = true := by
  obtain ⟨s, hs, ht⟩ := (Option.any_eq_true _ _).mp hr
  exact ⟨s, run_runMoves (.start rfl) hl hs, ht⟩

end Runs

end Xv6.Lib.Locks
