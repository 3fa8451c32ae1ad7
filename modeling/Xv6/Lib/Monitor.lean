/-
  Xv6.Lib.Monitor — processes that share a state under one lock, with sleep and wakeup.

  A process runs a flow graph of instructions.  `sleep` gives up the lock before the process
  is asleep, and `wakeup` goes through the processes one by one.

  `no_lost_wakeup`: if nobody goes to sleep without a reason, and whoever takes the reason
  away owes a wakeup that is paid before the lock is given up, then nobody sleeps without a
  reason while the lock is free.
-/
import Xv6.Lib.Count
import Xv6.Lib.Run

namespace Xv6.Lib.Monitor

open Function Option

/-! ## §1. Programs. -/

/-- What stands at a point of the flow graph: shared state `σ`, points `L`, channels `C`, inputs
`I`. -/
inductive Instr (σ L C I : Type) where
  | access (f : σ → Bool → I → σ × L)
  | acquire (next : L)
  | release (next : L)
  | sleep (chan : C) (next : L)
  | wakeup (chan : C) (next : L)

structure Program (σ L C I : Type) where
  code : L → Instr σ L C I
  /-- What others, such as devices, do to the shared state. -/
  env : σ → I → Option σ

inductive Mode (C : Type) where
  | running
  /-- In the loop of `wakeup`, at process `k`. -/
  | scanning (k : Nat)
  /-- In `sleep`: the lock is released, the own one held. -/
  | dozing (chan : C)
  | asleep (chan : C)
  /-- Out of sleep, before the lock is taken again. -/
  | woken
  deriving DecidableEq

structure State (n : Nat) (σ L C : Type) where
  shared : σ
  lock : Option (Fin n)
  pc : Fin n → L
  mode : Fin n → Mode C
  killed : Fin n → Bool

inductive Act (n : Nat) (I : Type) where
  | go (p : Fin n) (i : I)
  | kill (p : Fin n)
  | env (i : I)

section Machine

variable {n : Nat} {σ L C I : Type}

namespace State

@[simps -fullyApplied shared pc mode killed]
def setShared (s : State n σ L C) (x : σ) : State n σ L C := { s with shared := x }

@[simps -fullyApplied shared lock pc killed]
def setLock (s : State n σ L C) (lock : Option (Fin n)) : State n σ L C := { s with lock := lock }

@[simps -fullyApplied shared lock mode killed]
def setPc (s : State n σ L C) (p : Fin n) (l : L) : State n σ L C :=
  { s with pc := update s.pc p l }

@[simps -fullyApplied shared lock pc killed]
def setMode (s : State n σ L C) (p : Fin n) (m : Mode C) : State n σ L C :=
  { s with mode := update s.mode p m }

@[simps -fullyApplied shared pc mode]
def setKilled (s : State n σ L C) (p : Fin n) : State n σ L C :=
  { s with killed := update s.killed p true }

section Setters

variable (s : State n σ L C) (p q : Fin n) (l : L) (m : Mode C)

@[simp] theorem setPc_pc : (s.setPc p l).pc q = if q = p then l else s.pc q := by
  simp [setPc, update_apply]

@[simp] theorem setMode_mode : (s.setMode p m).mode q = if q = p then m else s.mode q := by
  simp [setMode, update_apply]

@[simp] theorem setKilled_killed :
    (s.setKilled p).killed q = if q = p then true else s.killed q := by
  simp [setKilled, update_apply]

end Setters

end State

def Mode.wake [DecidableEq C] (chan : C) : Mode C → Mode C
  | .asleep c => if c = chan then .woken else .asleep c
  | m => m

def Mode.kill : Mode C → Mode C
  | .asleep _ => .woken
  | m => m

def Mode.locked : Mode C → Bool
  | .dozing _ => true
  | _ => false

variable [DecidableEq C] (prog : Program σ L C I)

inductive Step : Act n I → State n σ L C → State n σ L C → Prop
  | access {s : State n σ L C} {p : Fin n} {i : I} {f : σ → Bool → I → σ × L}
    (hm : s.mode p = .running) (hc : prog.code (s.pc p) = .access f) :
    Step (.go p i) s
      ((s.setShared (f s.shared (s.killed p) i).1).setPc p (f s.shared (s.killed p) i).2)
  | acquire {s : State n σ L C} {p : Fin n} {i : I} {l : L} (hm : s.mode p = .running)
    (hc : prog.code (s.pc p) = .acquire l) (hl : s.lock = none) :
    Step (.go p i) s ((s.setLock (some p)).setPc p l)
  | release {s : State n σ L C} {p : Fin n} {i : I} {l : L} (hm : s.mode p = .running)
    (hc : prog.code (s.pc p) = .release l) :
    Step (.go p i) s ((s.setLock none).setPc p l)
  | sleep {s : State n σ L C} {p : Fin n} {i : I} {c : C} {l : L} (hm : s.mode p = .running)
    (hc : prog.code (s.pc p) = .sleep c l) :
    Step (.go p i) s ((s.setLock none).setMode p (.dozing c))
  | doze {s : State n σ L C} {p : Fin n} {i : I} {c : C} (hm : s.mode p = .dozing c) :
    Step (.go p i) s (s.setMode p (.asleep c))
  | resume {s : State n σ L C} {p : Fin n} {i : I} {c : C} {l : L} (hm : s.mode p = .woken)
    (hc : prog.code (s.pc p) = .sleep c l) (hl : s.lock = none) :
    Step (.go p i) s (((s.setLock (some p)).setMode p .running).setPc p l)
  | wakeup {s : State n σ L C} {p : Fin n} {i : I} {c : C} {l : L} (hm : s.mode p = .running)
    (hc : prog.code (s.pc p) = .wakeup c l) :
    Step (.go p i) s (s.setMode p (.scanning 0))
  /-- `wakeup` skips the process that calls it. -/
  | scanSelf {s : State n σ L C} {p : Fin n} {i : I} (hm : s.mode p = .scanning p) :
    Step (.go p i) s (s.setMode p (.scanning (p + 1)))
  | scan {s : State n σ L C} {p k : Fin n} {i : I} {c : C} {l : L}
    (hm : s.mode p = .scanning k) (hc : prog.code (s.pc p) = .wakeup c l) (hk : k ≠ p)
    (hl : (s.mode k).locked = false) :
    Step (.go p i) s ((s.setMode k ((s.mode k).wake c)).setMode p (.scanning (k + 1)))
  | scanned {s : State n σ L C} {p : Fin n} {i : I} {c : C} {l : L}
    (hm : s.mode p = .scanning n) (hc : prog.code (s.pc p) = .wakeup c l) :
    Step (.go p i) s ((s.setMode p .running).setPc p l)
  | kill {s : State n σ L C} {p : Fin n} (hl : (s.mode p).locked = false) :
    Step (.kill p) s ((s.setKilled p).setMode p (s.mode p).kill)
  | env {s : State n σ L C} {i : I} {x : σ} (hx : prog.env s.shared i = some x) :
    Step (.env i) s (s.setShared x)

def start (x : σ) (l : L) : State n σ L C where
  shared := x
  lock := none
  pc := fun _ => l
  mode := fun _ => .running
  killed := fun _ => false

def RunWith (x : σ) (l : L) (ok : State n σ L C → Act n I → Prop) : State n σ L C → Prop :=
  Reachable (· = start x l) fun s s' => ∃ a, Step prog a s s' ∧ ok s a

end Machine

/-! ## §2. Who holds the lock. -/

def Mode.active {C : Type} : Mode C → Bool
  | .running | .scanning _ => true
  | .dozing _ | .asleep _ | .woken => false

/-- `held` tells at which points the lock is held. -/
structure Disciplined {σ L C I : Type} (prog : Program σ L C I) (held : L → Bool) : Prop where
  access : ∀ l f, prog.code l = .access f → ∀ x k i, held (f x k i).2 = held l
  acquire : ∀ l l', prog.code l = .acquire l' → held l = false ∧ held l' = true
  release : ∀ l l', prog.code l = .release l' → held l = true ∧ held l' = false
  sleep : ∀ l c l', prog.code l = .sleep c l' → held l = true ∧ held l' = true
  wakeup : ∀ l c l', prog.code l = .wakeup c l' → held l' = held l

structure LockInv {n : Nat} {σ L C I : Type} (prog : Program σ L C I) (held : L → Bool)
    (s : State n σ L C) : Prop where
  holder : ∀ p, s.lock = some p ↔ held (s.pc p) = true ∧ (s.mode p).active = true
  scanning : ∀ p k, s.mode p = .scanning k → ∃ c l, prog.code (s.pc p) = .wakeup c l
  sleeping : ∀ p, (s.mode p).active = false → ∃ c l, prog.code (s.pc p) = .sleep c l

section Modes

variable {C : Type}

theorem Mode.kill_active (m : Mode C) : m.kill.active = m.active := by
  cases m <;> rfl

theorem Mode.kill_scanning {m : Mode C} {k : Nat} (h : m.kill = .scanning k) : m = .scanning k := by
  cases m with
  | asleep c => cases h
  | _ => exact h

variable [DecidableEq C]

theorem Mode.wake_cases (m : Mode C) (chan : C) :
    m.wake chan = m ∧ m ≠ .asleep chan ∨ m = .asleep chan ∧ m.wake chan = .woken := by
  cases m with
  | asleep c =>
    by_cases h : c = chan
    · subst h
      exact .inr ⟨rfl, if_pos rfl⟩
    · refine .inl ⟨if_neg h, ?_⟩
      intro he
      cases he
      exact h rfl
  | _ => exact .inl ⟨rfl, nofun⟩

theorem Mode.wake_active (m : Mode C) (chan : C) : (m.wake chan).active = m.active := by
  rcases m.wake_cases chan with ⟨h, _⟩ | ⟨h, h'⟩
  · rw [h]
  · rw [h', h]
    rfl

theorem Mode.wake_scanning {m : Mode C} {chan : C} {k : Nat} (h : m.wake chan = .scanning k) :
    m = .scanning k := by
  rcases m.wake_cases chan with ⟨h', _⟩ | ⟨_, h'⟩
  · rw [← h', h]
  · rw [h'] at h
    cases h

end Modes

section Lock

variable {n : Nat} {σ L C I : Type} {prog : Program σ L C I} {held : L → Bool}
  {s s' : State n σ L C} {a : Act n I}

variable {p : Fin n}

theorem LockInv.of_running (h : LockInv prog held s) (hm : s.mode p = .running)
    (hl : held (s.pc p) = true) : s.lock = some p := by
  apply (h.holder p).mpr
  exact ⟨hl, by rw [hm]; rfl⟩

theorem LockInv.running (h : LockInv prog held s) {f : σ → Bool → I → σ × L}
    (hc : prog.code (s.pc p) = .access f) : s.mode p = .running := by
  have hsleep : (s.mode p).active ≠ false := by
    intro hno
    obtain ⟨c, l, hl⟩ := h.sleeping p hno
    rw [hc] at hl
    cases hl
  cases hm : s.mode p with
  | running => rfl
  | scanning k =>
    obtain ⟨c, l, hl⟩ := h.scanning p k hm
    rw [hc] at hl
    cases hl
  | dozing | asleep | woken =>
    rw [hm] at hsleep
    exact absurd rfl hsleep

/-- Nobody else is at a point where the lock is held, except in `sleep`. -/
theorem LockInv.unique (h : LockInv prog held s) {p q : Fin n} (hm : s.mode p = .running)
    (hp : held (s.pc p) = true) (hq : held (s.pc q) = true)
    (hsleep : ∀ c l, prog.code (s.pc q) ≠ .sleep c l) : q = p := by
  have hactive : (s.mode q).active = true := by
    rw [← Bool.not_eq_false]
    intro hno
    obtain ⟨c, l, hc⟩ := h.sleeping q hno
    exact hsleep c l hc
  have hlock := h.of_running hm hp
  rw [(h.holder q).mpr ⟨hq, hactive⟩] at hlock
  exact Option.some.inj hlock

theorem eq_update {β : Type} {g : Fin n → β} {b : β} (h : g p = b) : g = update g p b := by
  rw [← h, update_eq_self]

theorem LockInv.goto (h : LockInv prog held s) {l : L} {m : Mode C}
    (hpc : s'.pc = update s.pc p l) (hmode : s'.mode = update s.mode p m)
    (hlock : ∀ q ≠ p, s'.lock = some q ↔ s.lock = some q)
    (hp : s'.lock = some p ↔ held l = true ∧ m.active = true)
    (hscan : ∀ k, m = .scanning k → ∃ c l', prog.code l = .wakeup c l')
    (hsleep : m.active = false → ∃ c l', prog.code l = .sleep c l') : LockInv prog held s' := by
  have hat : ∀ q, q = p ∧ s'.pc q = l ∧ s'.mode q = m ∨
      q ≠ p ∧ s'.pc q = s.pc q ∧ s'.mode q = s.mode q := by
    intro q
    rw [hpc, hmode]
    by_cases hq : q = p
    · rw [hq, update_self, update_self]
      exact .inl ⟨rfl, rfl, rfl⟩
    · rw [update_of_ne hq, update_of_ne hq]
      exact .inr ⟨hq, rfl, rfl⟩
  constructor <;> intro q <;> rcases hat q with ⟨rfl, hl, hm⟩ | ⟨hq, hl, hm⟩ <;> rw [hl, hm]
  · exact hp
  · exact (hlock q hq).trans (h.holder q)
  · exact hscan
  · exact h.scanning q
  · exact hsleep
  · exact h.sleeping q

theorem LockInv.calm (h : LockInv prog held s) {m : Mode C} (hactive : m.active = (s.mode p).active)
    (hscan : ∀ k, m = .scanning k → s.mode p = .scanning k) : LockInv prog held (s.setMode p m) := by
  refine h.goto (eq_update rfl) rfl (fun _ _ => Iff.rfl) ?_ ?_ ?_
  · rw [hactive]
    exact h.holder p
  · exact fun k hk => h.scanning p k (hscan k hk)
  · rw [hactive]
    exact h.sleeping p

theorem lockInv_start {x : σ} {l : L} (hl : held l = false) :
    LockInv prog held (start x l : State n σ L C) := by
  constructor
  · intro p
    simp [start, hl]
  · intro p k hk
    cases hk
  · intro p hp
    cases hp

variable [DecidableEq C]

/-- **One step keeps the discipline of the lock.** -/
theorem lockInv_step (hd : Disciplined prog held) (h : LockInv prog held s)
    (hs : Step prog a s s') : LockInv prog held s' := by
  cases hs with
  | @access _ p i f hm hc =>
    refine h.goto rfl (eq_update hm) (fun _ _ => Iff.rfl) ?_ nofun nofun
    rw [hd.access _ f hc, ← hm]
    exact h.holder p
  | @acquire _ p i l hm hc hl =>
    refine h.goto rfl (eq_update hm) (fun q hq => ?_) ?_ nofun nofun
    · simp [hl, Ne.symm hq]
    · simp [Mode.active, (hd.acquire _ _ hc).2]
  | @release _ p i l hm hc =>
    have hlock := h.of_running hm (hd.release _ _ hc).1
    refine h.goto rfl (eq_update hm) (fun q hq => ?_) ?_ nofun nofun
    · simp [hlock, Ne.symm hq]
    · simp [(hd.release _ _ hc).2]
  | @sleep _ p i c l hm hc =>
    have hlock := h.of_running hm (hd.sleep _ _ _ hc).1
    refine h.goto (eq_update rfl) rfl (fun q hq => ?_) ?_ nofun (fun _ => ⟨c, l, hc⟩)
    · simp [hlock, Ne.symm hq]
    · simp [Mode.active]
  | @doze _ p i c hm =>
    refine h.calm ?_ nofun
    rw [hm]
    rfl
  | @resume _ p i c l hm hc hl =>
    refine h.goto rfl rfl (fun q hq => ?_) ?_ nofun nofun
    · simp [hl, Ne.symm hq]
    · simp [Mode.active, (hd.sleep _ _ _ hc).2]
  | @wakeup _ p i c l hm hc =>
    refine h.goto (eq_update rfl) rfl (fun _ _ => Iff.rfl) ?_ (fun _ _ => ⟨c, l, hc⟩) nofun
    simpa [hm, Mode.active] using h.holder p
  | @scanSelf _ p i hm =>
    refine h.goto (eq_update rfl) rfl (fun _ _ => Iff.rfl) ?_ (fun _ _ => h.scanning p _ hm) nofun
    simpa [hm, Mode.active] using h.holder p
  | @scan _ p k i c l hm hc hk hl =>
    have h' := h.calm (p := k) (Mode.wake_active (s.mode k) c) fun _ => Mode.wake_scanning
    refine h'.goto (eq_update rfl) rfl (fun _ _ => Iff.rfl) ?_ (fun _ _ => ⟨c, l, hc⟩) nofun
    simpa [hm, Mode.active] using h.holder p
  | @scanned _ p i c l hm hc =>
    refine h.goto rfl rfl (fun _ _ => Iff.rfl) ?_ nofun nofun
    simpa [hm, Mode.active, hd.wakeup _ _ _ hc] using h.holder p
  | @kill _ p hl =>
    have h' : LockInv prog held (s.setKilled p) := ⟨h.holder, h.scanning, h.sleeping⟩
    exact h'.calm (Mode.kill_active _) fun _ => Mode.kill_scanning
  | env hx => exact ⟨h.holder, h.scanning, h.sleeping⟩

theorem run_lockInv (hd : Disciplined prog held) {x : σ} {l : L} (hl : held l = false)
    {ok : State n σ L C → Act n I → Prop} (h : RunWith prog x l ok s) : LockInv prog held s := by
  apply Reachable.invariant (LockInv prog held) _ _ h
  · intro s hs
    rw [hs]
    exact lockInv_start hl
  · intro s s' hinv ⟨a, hs, _⟩
    exact lockInv_step hd hinv hs

end Lock

/-! ## §3. What holds of the shared state. -/

/-- `free` holds of the shared state while the lock is free, `inside` where its holder stands,
`known` always. -/
structure Rule {n : Nat} {σ L C I : Type} (prog : Program σ L C I) (held : L → Bool)
    (free : σ → Prop) (inside : L → σ → Bool → Prop) (known : State n σ L C → Prop) : Prop where
  access : ∀ l f, prog.code l = .access f → held l = true → ∀ x k i, inside l x k →
    inside (f x k i).2 (f x k i).1 k
  outside : ∀ s p f i, known s → s.mode p = .running → prog.code (s.pc p) = .access f →
    held (s.pc p) = false → (free s.shared → free (f s.shared (s.killed p) i).1) ∧
      ∀ l k, inside l s.shared k → inside l (f s.shared (s.killed p) i).1 k
  env : ∀ x i x', prog.env x i = some x' →
    (free x → free x') ∧ ∀ l k, inside l x k → inside l x' k
  acquire : ∀ l l', prog.code l = .acquire l' → ∀ x k, free x → inside l' x k
  release : ∀ l l', prog.code l = .release l' → ∀ x k, inside l x k → free x
  sleep : ∀ l c l', prog.code l = .sleep c l' → ∀ x k,
    (inside l x k → free x) ∧ (free x → inside l' x k)
  wakeup : ∀ l c l', prog.code l = .wakeup c l' → ∀ x k, inside l x k → inside l' x k

structure RuleInv {n : Nat} {σ L C : Type} (free : σ → Prop) (inside : L → σ → Bool → Prop)
    (s : State n σ L C) : Prop where
  free : s.lock = none → free s.shared
  holder : ∀ p, s.lock = some p → inside (s.pc p) s.shared (s.killed p)

section Rules

variable {n : Nat} {σ L C I : Type} [DecidableEq C] {prog : Program σ L C I} {held : L → Bool}
  {free : σ → Prop} {inside : L → σ → Bool → Prop} {known : State n σ L C → Prop}
  {s s' : State n σ L C} {a : Act n I}

section

variable (hd : Disciplined prog held) (hrule : Rule prog held free inside known)

include hd hrule

theorem ruleInv_step (hl : LockInv prog held s) (hk : known s) (h : RuleInv free inside s) (hs : Step prog a s s')
    (hkill : ∀ p, a = .kill p → s.lock = some p → inside (s.pc p) s.shared (s.killed p) →
      inside (s.pc p) s.shared true) : RuleInv free inside s' := by
  cases hs with
  | @access _ q i f hm hc =>
    cases hheld : held (s.pc q) with
    | true =>
      have hlock := hl.of_running hm hheld
      constructor
      · intro hnone
        rw [show s.lock = none from hnone] at hlock
        cases hlock
      · intro p hp
        obtain rfl : p = q := by
          rw [show s.lock = some p from hp] at hlock
          exact Option.some.inj hlock
        simpa using hrule.access _ f hc hheld s.shared (s.killed p) i (h.holder p hp)
    | false =>
      obtain ⟨hfree, hat⟩ := hrule.outside s q f i hk hm hc hheld
      refine ⟨fun hnone => hfree (h.free hnone), fun p hp => ?_⟩
      have hpq : p ≠ q := by
        intro e
        rw [← e, ((hl.holder p).mp hp).1] at hheld
        cases hheld
      simpa [hpq] using hat _ _ (h.holder p hp)
  | @acquire _ q i l hm hc hnone =>
    refine ⟨fun hnone' => (by cases hnone'), fun p hp => ?_⟩
    obtain rfl : q = p := Option.some.inj hp
    simpa using hrule.acquire _ _ hc _ (s.killed q) (h.free hnone)
  | @release _ q i l hm hc =>
    have hlock := hl.of_running hm (hd.release _ _ hc).1
    exact ⟨fun _ => hrule.release _ _ hc _ _ (h.holder q hlock), fun p hp => by cases hp⟩
  | @sleep _ q i c l hm hc =>
    have hlock := hl.of_running hm (hd.sleep _ _ _ hc).1
    exact ⟨fun _ => (hrule.sleep _ _ _ hc _ _).1 (h.holder q hlock), fun p hp => by cases hp⟩
  | @doze _ q i c hm | wakeup hm hc | scanSelf hm | scan hm hc hk hu => exact ⟨h.free, h.holder⟩
  | @resume _ q i c l hm hc hnone =>
    refine ⟨fun hnone' => (by cases hnone'), fun p hp => ?_⟩
    obtain rfl : q = p := Option.some.inj hp
    simpa using (hrule.sleep _ _ _ hc _ (s.killed q)).2 (h.free hnone)
  | @scanned _ q i c l hm hc =>
    refine ⟨h.free, fun p hp => ?_⟩
    have hat := h.holder p hp
    by_cases hpq : p = q
    · subst hpq
      simpa using hrule.wakeup _ _ _ hc _ _ hat
    · simpa [hpq] using hat
  | @kill _ q hu =>
    refine ⟨h.free, fun p hp => ?_⟩
    have hat := h.holder p hp
    by_cases hpq : p = q
    · subst hpq
      simpa using hkill p rfl hp hat
    · simpa [hpq] using hat
  | @env _ i x hx =>
    obtain ⟨hfree, hat⟩ := hrule.env _ _ _ hx
    exact ⟨fun hnone => hfree (h.free hnone), fun p hp => hat _ _ (h.holder p hp)⟩

/-- **The rule for one lock.** -/
theorem run_ruleInv {x : σ}
    {l : L} (hl : held l = false) (hx : free x) {ok : State n σ L C → Act n I → Prop}
    (hkill : ∀ s p, ok s (.kill p) → inside (s.pc p) s.shared (s.killed p) →
      inside (s.pc p) s.shared true) (hknown : ∀ s, RunWith prog x l ok s → known s)
    (h : RunWith prog x l ok s) : RuleInv free inside s := by
  apply Reachable.invariant_with (fun s => LockInv prog held s ∧ known s) (RuleInv free inside)
    _ _ _ h
  · exact fun s hs => ⟨run_lockInv hd hl hs, hknown s hs⟩
  · intro s hs
    rw [hs]
    exact ⟨fun _ => hx, fun p hp => by cases hp⟩
  · intro s s' hlock _ hinv ⟨a, hs, hok⟩
    apply ruleInv_step hd hrule hlock.1 hlock.2 hinv hs
    intro p hp _ hat
    subst hp
    exact hkill s p hok hat

end

end Rules

/-! ## §4. Counting processes. -/

def Instr.next {σ L C I : Type} : Instr σ L C I → Option L
  | .access _ => none
  | .acquire l | .release l | .sleep _ l | .wakeup _ l => some l

section Moves

variable {n : Nat} {σ L C I : Type} [DecidableEq C] {prog : Program σ L C I}
  {s s' : State n σ L C} {a : Act n I}

theorem Step.moves (hs : Step prog a s s') :
    (∃ p f i, a = .go p i ∧ s.mode p = .running ∧ prog.code (s.pc p) = .access f ∧
      s'.shared = (f s.shared (s.killed p) i).1 ∧
      s'.pc = update s.pc p (f s.shared (s.killed p) i).2) ∨
    (∃ i, prog.env s.shared i = some s'.shared ∧ s'.pc = s.pc) ∨
    (∃ p l i, a = .go p i ∧ (prog.code (s.pc p)).next = some l ∧ s'.shared = s.shared ∧
      s'.pc = update s.pc p l) ∨
    (s'.shared = s.shared ∧ s'.pc = s.pc) := by
  cases hs with
  | access hm hc => exact .inl ⟨_, _, _, rfl, hm, hc, rfl, rfl⟩
  | env hx => exact .inr (.inl ⟨_, hx, rfl⟩)
  | acquire hm hc hl | release hm hc | resume hm hc hl | scanned hm hc =>
    exact .inr (.inr (.inl ⟨_, _, _, rfl, congrArg _ hc, rfl, rfl⟩))
  | sleep | doze | wakeup | scanSelf | scan | kill => exact .inr (.inr (.inr ⟨rfl, rfl⟩))

theorem Step.killed_cases (hs : Step prog a s s') (p : Fin n) :
    s'.killed p = s.killed p ∨ a = .kill p := by
  cases hs with
  | @kill _ q hl =>
    by_cases hq : p = q
    · exact .inr (congrArg _ hq.symm)
    · refine .inl ?_
      simp [hq]
  | access | acquire | release | sleep | doze | resume | wakeup | scanSelf | scan | scanned | env =>
    exact .inl rfl

end Moves

/-- The value `v` of the shared state counts the processes, with the weight `g`
of the point at which each stands. -/
structure Tally {n : Nat} {σ L C I : Type} (prog : Program σ L C I) (g : L → Int) (v : σ → Int)
    (known : State n σ L C → Prop) : Prop where
  access : ∀ s p f i, known s → v s.shared = ∑ q, g (s.pc q) → s.mode p = .running →
    prog.code (s.pc p) = .access f →
    v (f s.shared (s.killed p) i).1 - v s.shared = g (f s.shared (s.killed p) i).2 - g (s.pc p)
  env : ∀ s i x, known s → prog.env s.shared i = some x → v x = v s.shared
  next : ∀ l l', (prog.code l).next = some l' → g l' = g l

section Tallies

variable {n : Nat} {σ L C I : Type} [DecidableEq C] {prog : Program σ L C I} {g : L → Int}
  {v : σ → Int} {known : State n σ L C → Prop} {s s' : State n σ L C} {a : Act n I}

theorem tally_step (ht : Tally prog g v known) (hk : known s)
    (h : v s.shared = ∑ q, g (s.pc q)) (hs : Step prog a s s') :
    v s'.shared = ∑ q, g (s'.pc q) := by
  rcases hs.moves with ⟨p, f, i, _, hm, hc, hx, hpc⟩ | ⟨i, hx, hpc⟩ | ⟨p, l, _, _, hl, hx, hpc⟩ | ⟨hx, hpc⟩
  · have hstep := ht.access s p f i hk h hm hc
    rw [hx, hpc, sum_update]
    omega
  · rw [ht.env s _ _ hk hx, hpc]
    exact h
  · rw [hx, hpc, sum_update, ht.next _ _ hl]
    omega
  · rw [hx, hpc]
    exact h

theorem run_tally (ht : Tally prog g v known) {x : σ} {l : L} (hx : v x = 0) (hl : g l = 0)
    {ok : State n σ L C → Act n I → Prop} (hknown : ∀ s, RunWith prog x l ok s → known s)
    (h : RunWith prog x l ok s) : v s.shared = ∑ q, g (s.pc q) := by
  apply Reachable.invariant_with known (fun s => v s.shared = ∑ q, g (s.pc q)) hknown _ _ h
  · intro s hs
    rw [hs]
    simp [start, hx, hl]
  · intro s s' hk _ hsum ⟨a, hs, _⟩
    exact tally_step ht hk hsum hs

end Tallies

/-! ## §5. What holds where a process stands. -/

/-- `assert l` holds of the shared state whenever a process stands at `l`, and nobody else destroys
it. -/
structure Local {n : Nat} {σ L C I : Type} (prog : Program σ L C I) (assert : L → σ → Prop)
    (known : State n σ L C → Prop) : Prop where
  own : ∀ s p f i, known s → s.mode p = .running → prog.code (s.pc p) = .access f →
    assert (s.pc p) s.shared → assert (f s.shared (s.killed p) i).2 (f s.shared (s.killed p) i).1
  other : ∀ s p q f i, known s → s.mode p = .running → prog.code (s.pc p) = .access f → q ≠ p →
    assert (s.pc q) s.shared → assert (s.pc q) (f s.shared (s.killed p) i).1
  env : ∀ s q i x, known s → prog.env s.shared i = some x → assert (s.pc q) s.shared →
    assert (s.pc q) x
  next : ∀ l l' x, (prog.code l).next = some l' → assert l x → assert l' x

theorem local_step {n : Nat} {σ L C I : Type} [DecidableEq C] {prog : Program σ L C I}
    {assert : L → σ → Prop} {known : State n σ L C → Prop} {s s' : State n σ L C} {a : Act n I}
    (hlocal : Local prog assert known) (hk : known s) (h : ∀ p, assert (s.pc p) s.shared)
    (hs : Step prog a s s') (q : Fin n) : assert (s'.pc q) s'.shared := by
  rcases hs.moves with ⟨p, f, i, _, hm, hc, hx, hpc⟩ | ⟨i, hx, hpc⟩ | ⟨p, l, _, _, hl, hx, hpc⟩ | ⟨hx, hpc⟩
  · rw [hx, hpc]
    by_cases hq : q = p
    · rw [hq, update_self]
      exact hlocal.own s p f i hk hm hc (h p)
    · rw [update_of_ne hq]
      exact hlocal.other s p q f i hk hm hc hq (h q)
  · rw [hpc]
    exact hlocal.env s q i _ hk hx (h q)
  · rw [hx, hpc]
    by_cases hq : q = p
    · rw [hq, update_self]
      exact hlocal.next _ _ _ hl (h p)
    · rw [update_of_ne hq]
      exact h q
  · rw [hx, hpc]
    exact h q

/-! ## §6. No wakeup is lost. -/

/-- The process sleeps on `chan`, or is about to. -/
def Mode.on {C : Type} (chan : C) (m : Mode C) : Prop := m = .dozing chan ∨ m = .asleep chan

/-- What the rule asks of a program: `waits c` is the reason to sleep on `c`, `owes l c` says that a
wakeup of `c` is still to come at `l`. -/
structure Pays {n : Nat} {σ L C I : Type} (prog : Program σ L C I) (held : L → Bool)
    (waits : C → σ → Prop) (owes : L → C → Prop) (known : State n σ L C → Prop) : Prop where
  sleep : ∀ s p c l, known s → s.mode p = .running → prog.code (s.pc p) = .sleep c l →
    waits c s.shared
  /-- An access under the lock that takes a reason away owes a wakeup, and no
  access pays one. -/
  access : ∀ s p f i c, known s → s.mode p = .running → prog.code (s.pc p) = .access f →
    held (s.pc p) = true → waits c s.shared ∨ owes (s.pc p) c →
    waits c (f s.shared (s.killed p) i).1 ∨ owes (f s.shared (s.killed p) i).2 c
  /-- Without the lock no reason is taken away. -/
  outside : ∀ s p f i c, known s → s.mode p = .running → prog.code (s.pc p) = .access f →
    held (s.pc p) = false → waits c s.shared → waits c (f s.shared (s.killed p) i).1
  env : ∀ x x' i c, prog.env x i = some x' → waits c x → waits c x'
  wakeup : ∀ l c l' c', prog.code l = .wakeup c l' → owes l c' → c' = c ∨ owes l' c'
  paid : ∀ l, ((∃ l', prog.code l = .release l') ∨ ∃ c l', prog.code l = .sleep c l') →
    ∀ c, ¬ owes l c

/-- Whoever sleeps on `c` has a reason, or is still to be reached by the wakeup that is owed. -/
def Reasons {n : Nat} {σ L C I : Type} (prog : Program σ L C I) (waits : C → σ → Prop)
    (owes : L → C → Prop) (s : State n σ L C) : Prop :=
  ∀ p c, (s.mode p).on c → waits c s.shared ∨
    ∃ h, s.lock = some h ∧ owes (s.pc h) c ∧
      ∀ k l, s.mode h = .scanning k → prog.code (s.pc h) = .wakeup c l → k ≤ p

section Wakeups

variable {n : Nat} {σ L C I : Type} {prog : Program σ L C I} {held : L → Bool}
  {waits : C → σ → Prop} {owes : L → C → Prop} {known : State n σ L C → Prop}
  {s s' : State n σ L C} {a : Act n I}

variable {m : Mode C} {c : C} {p : Fin n}

theorem Mode.on_of_active (h : m.active = true) (c : C) : ¬ m.on c := by
  rintro (rfl | rfl) <;> cases h

theorem Mode.on_kill (h : m.kill.on c) : m.on c := by
  cases m with
  | asleep c' => rcases h with h | h <;> cases h
  | _ => exact h

theorem Reasons.free (h : Reasons prog waits owes s) (hl : s.lock = none)
    (hp : (s.mode p).on c) : waits c s.shared := by
  rcases h p c hp with hw | ⟨h, hlock, _⟩
  · exact hw
  · rw [hl] at hlock
    cases hlock

theorem Reasons.paid (h : Reasons prog waits owes s) (hpays : Pays prog held waits owes known)
    {q : Fin n} (hlock : s.lock = some q)
    (hq : (∃ l', prog.code (s.pc q) = .release l') ∨ ∃ c l', prog.code (s.pc q) = .sleep c l')
    (hp : (s.mode p).on c) : waits c s.shared := by
  rcases h p c hp with hw | ⟨h, hlock', howes, _⟩
  · exact hw
  · rw [hlock] at hlock'
    cases hlock'
    exact absurd howes (hpays.paid _ hq c)

theorem onlyAwake {p q : Fin n} (hm : m.active = true)
    (h : ((s.setMode q m).mode p).on c) : (s.mode p).on c := by
  rw [State.setMode_mode] at h
  split at h
  · exact absurd h (Mode.on_of_active hm c)
  · exact h

/-- Nobody falls asleep, and no scan leaves anybody behind who sleeps on its channel. -/
theorem Reasons.still (h : Reasons prog waits owes s) (hshared : s'.shared = s.shared)
    (hlock : s'.lock = s.lock) (hpc : s'.pc = s.pc)
    (hon : ∀ p c, (s'.mode p).on c → (s.mode p).on c)
    (hscan : ∀ r k, s'.mode r = .scanning k → s.mode r = .scanning k ∨
      ∀ p c l, (s'.mode p).on c → prog.code (s.pc r) = .wakeup c l →
        (∀ j, s.mode r = .scanning j → j ≤ p) → k ≤ p) : Reasons prog waits owes s' := by
  intro p c hp
  rw [hshared, hlock, hpc]
  rcases h p c (hon p c hp) with hw | ⟨r, hr, howes, hdone⟩
  · exact .inl hw
  · refine .inr ⟨r, hr, howes, fun k l hk hcode => ?_⟩
    rcases hscan r k hk with hold | hnew
    · exact hdone k l hold hcode
    · exact hnew p c l hp hcode fun j hj => hdone j l hj hcode

variable [DecidableEq C]

theorem Mode.on_wake {c chan : C} (hl : m.locked = false) (h : (m.wake chan).on c) :
    m.on c ∧ c ≠ chan := by
  rcases m.wake_cases chan with ⟨he, hne⟩ | ⟨_, he⟩
  · rw [he] at h
    refine ⟨h, ?_⟩
    rintro rfl
    rcases h with h | h
    · rw [h] at hl
      cases hl
    · exact hne h
  · rw [he] at h
    rcases h with h | h <;> cases h

section

variable (hd : Disciplined prog held) (hpays : Pays prog held waits owes known)

include hd hpays

/-- **One step.** -/
theorem reasons_step (hl : LockInv prog held s) (hk : known s) (h : Reasons prog waits owes s)
    (hs : Step prog a s s') : Reasons prog waits owes s' := by
  cases hs with
  | @access _ q i f hm hc =>
    intro p c hp
    have hp' : (s.mode p).on c := hp
    cases hheld : held (s.pc q) with
    | true =>
      -- the process holds the lock, so the debt is its own
      have hlock := hl.of_running hm hheld
      have howed : waits c s.shared ∨ owes (s.pc q) c := by
        rcases h p c hp' with hw | ⟨r, hr, howes, _⟩
        · exact .inl hw
        · rw [hlock] at hr
          cases hr
          exact .inr howes
      rcases hpays.access s q f i c hk hm hc hheld howed with hw | ho
      · exact .inl hw
      · refine .inr ⟨q, hlock, ?_, ?_⟩
        · simpa using ho
        · intro k l hscan
          simp [hm] at hscan
    | false =>
      rcases h p c hp' with hw | ⟨r, hr, howes, hscan⟩
      · exact .inl (hpays.outside s q f i c hk hm hc hheld hw)
      · have hrq : r ≠ q := by
          rintro rfl
          rw [((hl.holder r).mp hr).1] at hheld
          cases hheld
        refine .inr ⟨r, hr, ?_, ?_⟩
        · simpa [hrq] using howes
        · simpa [hrq] using hscan
  | @acquire _ q i l hm hc hlock => exact fun p c hp => .inl (h.free hlock hp)
  | @release _ q i l hm hc =>
    intro p c hp
    have hlock := hl.of_running hm (hd.release _ _ hc).1
    exact .inl (h.paid hpays hlock (.inl ⟨l, hc⟩) hp)
  | @sleep _ q i c' l hm hc =>
    intro p c hp
    have hlock := hl.of_running hm (hd.sleep _ _ _ hc).1
    by_cases hpq : p = q
    · simp only [State.setMode_mode, hpq, if_true] at hp
      rcases hp with hp | hp
      · cases hp
        exact .inl (hpays.sleep s q _ l hk hm hc)
      · cases hp
    · simp only [State.setMode_mode, if_neg hpq] at hp
      exact .inl (h.paid hpays hlock (.inr ⟨c', l, hc⟩) hp)
  | @doze _ q i c' hm =>
    refine h.still rfl rfl rfl (fun p c hp => ?_) (fun r k hr => .inl ?_)
    · simp only [State.setMode_mode] at hp
      split at hp
      · next hpq =>
        rcases hp with hp | hp
        · cases hp
        · cases hp
          rw [hpq]
          exact .inl hm
      · exact hp
    · simp only [State.setMode_mode] at hr
      split at hr
      · cases hr
      · exact hr
  | @resume _ q i c' l hm hc hlock =>
    exact fun p c hp => .inl (h.free hlock (onlyAwake rfl hp))
  | @wakeup _ q i c' l hm hc =>
    refine h.still rfl rfl rfl (fun p c => onlyAwake rfl) (fun r k hr => ?_)
    simp only [State.setMode_mode] at hr
    split at hr
    · cases hr
      exact .inr fun _ _ _ _ _ _ => Nat.zero_le _
    · exact .inl hr
  | @scanSelf _ q i hm =>
    refine h.still rfl rfl rfl (fun p c => onlyAwake rfl) (fun r k hr => ?_)
    simp only [State.setMode_mode] at hr
    split at hr
    · next hrq =>
      cases hr
      refine .inr fun p c l hp _ hdone => ?_
      have hle := hdone q (hrq ▸ hm)
      have hne : (q : Nat) ≠ p := by
        intro e
        rw [← Fin.ext e] at hp
        simp only [State.setMode_mode, if_true] at hp
        exact Mode.on_of_active rfl c hp
      omega
    · exact .inl hr
  | @scan _ q k i c' l hm hc hkq hunlocked =>
    have hasleep : ∀ p c, (((s.setMode k ((s.mode k).wake c')).setMode q
        (.scanning (k + 1))).mode p).on c → (s.mode p).on c ∧ (p = k → c ≠ c') := by
      intro p c hp
      have hp' := onlyAwake rfl hp
      simp only [State.setMode_mode] at hp'
      split at hp'
      · next he =>
        rw [he]
        obtain ⟨hon, hne⟩ := Mode.on_wake hunlocked hp'
        exact ⟨hon, fun _ => hne⟩
      · next he => exact ⟨hp', fun e => absurd e he⟩
    refine h.still rfl rfl rfl (fun p c hp => (hasleep p c hp).1) (fun r j hr => ?_)
    simp only [State.setMode_mode] at hr
    split at hr
    · next hrq =>
      cases hr
      refine .inr fun p c l' hp hcode hdone => ?_
      -- the process at `k` has been woken up if it slept on this channel
      have hle := hdone k (hrq ▸ hm)
      have hne : (k : Nat) ≠ p := by
        intro e
        rw [hrq, hc] at hcode
        cases hcode
        exact (hasleep p _ hp).2 (Fin.ext e).symm rfl
      omega
    · split at hr
      · next he =>
        rw [he]
        exact .inl (Mode.wake_scanning hr)
      · exact .inl hr
  | @scanned _ q i c' l hm hc =>
    intro p c hp
    rcases h p c (onlyAwake rfl hp) with hw | ⟨r, hr, howes, hscan⟩
    · exact .inl hw
    · by_cases hrq : r = q
      · subst hrq
        have hne : c ≠ c' := by
          intro e
          subst e
          have hle := hscan n l hm hc
          have hlt := p.isLt
          omega
        refine .inr ⟨r, hr, ?_, ?_⟩
        · simpa using (hpays.wakeup _ _ _ _ hc howes).resolve_left hne
        · intro k l' hrm
          simp at hrm
      · refine .inr ⟨r, hr, ?_, ?_⟩
        · simpa [hrq] using howes
        · simpa [hrq] using hscan
  | @kill _ q hunlocked =>
    refine h.still rfl rfl rfl (fun p c hp => ?_) (fun r k hr => .inl ?_)
    · simp only [State.setMode_mode, State.setKilled_mode] at hp
      split at hp
      · next he =>
        rw [he]
        exact Mode.on_kill hp
      · exact hp
    · simp only [State.setMode_mode, State.setKilled_mode] at hr
      split at hr
      · next he =>
        rw [he]
        exact Mode.kill_scanning hr
      · exact hr
  | @env _ i x hx =>
    intro p c hp
    rcases h p c hp with hw | hpending
    · exact .inl (hpays.env _ _ _ _ hx hw)
    · exact .inr hpending

/-- **No wakeup is lost.**  While the lock is free, everybody who sleeps has a
reason. -/
theorem no_lost_wakeup {x : σ} {l : L} (hl : held l = false) {ok : State n σ L C → Act n I → Prop}
    (hknown : ∀ s, RunWith prog x l ok s → known s) (h : RunWith prog x l ok s)
    (hfree : s.lock = none) (hp : s.mode p = .asleep c) : waits c s.shared := by
  have hreasons : Reasons prog waits owes s := by
    apply Reachable.invariant_with (fun s => LockInv prog held s ∧ known s)
      (Reasons prog waits owes) _ _ _ h
    · exact fun s hs => ⟨run_lockInv hd hl hs, hknown s hs⟩
    · intro s hs p c hp
      rw [hs] at hp
      exact absurd hp (Mode.on_of_active rfl c)
    · intro s s' hinv _ hr ⟨a, hs, _⟩
      exact reasons_step hd hpays hinv.1 hinv.2 hr hs
  exact hreasons.free hfree (.inr hp)

end

end Wakeups

/-! ## §7. Runs that are written out. -/

section Exec

variable {n : Nat} {σ L C I : Type} [DecidableEq C] (prog : Program σ L C I)

def scanExec (s : State n σ L C) (p : Fin n) (k : Nat) (chan : C) (next : L) :
    Option (State n σ L C) :=
  if h : k < n then
    if (⟨k, h⟩ : Fin n) = p then some (s.setMode p (.scanning (k + 1)))
    else if (s.mode ⟨k, h⟩).locked then none
    else some ((s.setMode ⟨k, h⟩ ((s.mode ⟨k, h⟩).wake chan)).setMode p (.scanning (k + 1)))
  else if k = n then some ((s.setMode p .running).setPc p next)
  else none

def goExec (s : State n σ L C) (p : Fin n) (i : I) : Option (State n σ L C) :=
  match s.mode p, prog.code (s.pc p) with
  | .running, .access f =>
    some ((s.setShared (f s.shared (s.killed p) i).1).setPc p (f s.shared (s.killed p) i).2)
  | .running, .acquire l =>
    if s.lock.isNone then some ((s.setLock (some p)).setPc p l) else none
  | .running, .release l => some ((s.setLock none).setPc p l)
  | .running, .sleep c _ => some ((s.setLock none).setMode p (.dozing c))
  | .running, .wakeup _ _ => some (s.setMode p (.scanning 0))
  | .scanning k, .wakeup c l => scanExec s p k c l
  | .dozing c, _ => some (s.setMode p (.asleep c))
  | .woken, .sleep _ l =>
    if s.lock.isNone then some (((s.setLock (some p)).setMode p .running).setPc p l) else none
  | _, _ => none

def exec (s : State n σ L C) : Act n I → Option (State n σ L C)
  | .go p i => goExec prog s p i
  | .kill p => if (s.mode p).locked then none else some ((s.setKilled p).setMode p (s.mode p).kill)
  | .env i => (prog.env s.shared i).map s.setShared

variable {prog} {s s' : State n σ L C} {a : Act n I}

theorem scanExec_step {p : Fin n} {i : I} {k : Nat} {c : C} {l : L} (hm : s.mode p = .scanning k)
    (hc : prog.code (s.pc p) = .wakeup c l) (h : scanExec s p k c l = some s') :
    Step prog (.go p i) s s' := by
  unfold scanExec at h
  split at h
  · next hk =>
    split at h
    · next hp =>
      cases h
      have hkp : k = p := congrArg Fin.val hp
      subst hkp
      exact .scanSelf hm
    · next hp =>
      split at h
      · cases h
      · next hl =>
        cases h
        exact .scan hm hc hp (Bool.not_eq_true _ ▸ hl)
  · split at h
    · next hk =>
      cases h
      subst hk
      exact .scanned hm hc
    · cases h

theorem exec_step (h : exec prog s a = some s') : Step prog a s s' := by
  cases a with
  | kill p =>
    change (if (s.mode p).locked then none else _) = some s' at h
    split at h
    · cases h
    · next hl =>
      cases h
      exact .kill (Bool.not_eq_true _ ▸ hl)
  | env i =>
    obtain ⟨x, hx, rfl⟩ := map_eq_some_iff.mp h
    exact .env hx
  | go p i =>
    change goExec prog s p i = some s' at h
    unfold goExec at h
    split at h
    · next f hm hc =>
      cases h
      exact .access hm hc
    · next l hm hc =>
      split at h
      · next hl =>
        cases h
        exact .acquire hm hc (isNone_iff_eq_none.mp hl)
      · cases h
    · next l hm hc =>
      cases h
      exact .release hm hc
    · next c l hm hc =>
      cases h
      exact .sleep hm hc
    · next c l hm hc =>
      cases h
      exact .wakeup hm hc
    · next k c l hm hc => exact scanExec_step hm hc h
    · next c hm =>
      cases h
      exact .doze hm
    · next c l hm hc =>
      split at h
      · next hl =>
        cases h
        exact .resume hm hc (isNone_iff_eq_none.mp hl)
      · cases h
    · cases h

def runActs (prog : Program σ L C I) (ok : State n σ L C → Act n I → Prop)
    [∀ s a, Decidable (ok s a)] : State n σ L C → List (Act n I) → Option (State n σ L C)
  | s, [] => some s
  | s, a :: l => if ok s a then (exec prog s a).bind fun s => runActs prog ok s l else none

variable {ok : State n σ L C → Act n I → Prop}

theorem run_runActs [∀ s a, Decidable (ok s a)] {x : σ}
    {l₀ : L} {l : List (Act n I)} (h : RunWith prog x l₀ ok s)
    (hr : runActs prog ok s l = some s') : RunWith prog x l₀ ok s' := by
  induction l generalizing s with
  | nil =>
    cases hr
    exact h
  | cons a l ih =>
    unfold runActs at hr
    split at hr
    · next hok =>
      obtain ⟨s₁, hs, hr⟩ := bind_eq_some_iff.mp hr
      exact ih (h.next ⟨a, exec_step hs, hok⟩) hr
    · cases hr

theorem exists_run_runActs [∀ s a, Decidable (ok s a)] {x : σ}
    {l₀ : L} {l : List (Act n I)} {test : State n σ L C → Bool}
    (hr : (runActs prog ok (start x l₀) l).any test = true) :
    ∃ s, RunWith prog x l₀ ok s ∧ test s = true := by
  obtain ⟨s, hs, ht⟩ := (any_eq_true _ _).mp hr
  exact ⟨s, run_runActs (.start rfl) hs, ht⟩

end Exec

end Xv6.Lib.Monitor
