/-
  Xv6.Virtio.Invariant — who owns what between the driver and the device.

  `Rings` says which requests are in the avail ring, with the device and in the used ring.
-/
import Xv6.Virtio.Machine

namespace Xv6.Virtio

open Lib Lib.Monitor Function List

/-! ## §1. The processes. -/

/-- What is left of a chain from descriptor `i` on. -/
def Idx.from (idx : Idx) (i : Nat) : List Nat :=
  if i = idx.head then idx.list
  else if i = idx.data then [idx.data, idx.status]
  else if i = idx.status then [idx.status]
  else []

section Points

variable {B : Type}

def Pc.owned : Pc B → List Nat
  | .rAlloc _ _ _ l | .rUndo _ _ _ l | .rUndoWake _ _ _ l => l
  | .rFormat _ _ _ idx | .rRing _ idx | .rPublish _ idx | .rWait _ idx | .rSleep _ idx
  | .rDone _ idx => idx.list
  | .rFree _ idx i | .rFreeWake _ idx (some i) => idx.from i
  | _ => []

def Pc.buf : Pc B → Option B
  | .rEnter b _ _ | .rAlloc b _ _ _ | .rUndo b _ _ _ | .rUndoWake b _ _ _ | .rFormat b _ _ _
  | .rRing b _ | .rPublish b _ | .rWait b _ | .rSleep b _ | .rDone b _ | .rFree b _ _
  | .rFreeWake b _ _ | .rUnlock b | .rRelse b => some b
  | _ => none

def Pc.request : Pc B → Option Nat
  | .rWait _ idx | .rSleep _ idx | .rDone _ idx => some idx.head
  | _ => none

/-- The request that it has completed and not stepped over. -/
def Pc.clears : Pc B → Option Nat
  | .iWake _ id | .iNext id => some id
  | _ => none

end Points

/-- `b->disk` is set for a request in this stage. -/
def Stage.pending : Stage → Bool
  | .idle | .published | .taken | .posted => true
  | .cleared | .finished => false

/-- The descriptors are linked in this order. -/
def Chain {B : Type} (desc : Nat → Desc B) : List Nat → Prop
  | [] => True
  | [i] => (desc i).hasNext = false
  | i :: j :: l => (desc i).hasNext = true ∧ (desc i).next = j ∧ Chain desc (j :: l)

section Asserts

variable {B : Type}

structure Linked (desc : Nat → Desc B) (idx : Idx) : Prop where
  nodup : idx.list.Nodup
  chain : Chain desc idx.list

/-- The request of `b` that the chain `idx` stands for. -/
structure Asked (x : Disk B) (b : B) (idx : Idx) : Prop where
  linked : Linked x.desc idx
  info : (x.info idx.head).b = some b
  disk : x.disk b = (x.stage idx.head).pending

/-- In free_chain: the rest of the chain is still linked. -/
structure Unlinking (desc : Nat → Desc B) (idx : Idx) (i : Nat) : Prop where
  nodup : idx.list.Nodup
  mem : i ∈ idx.list
  chain : Chain desc (idx.from i)

def Pc.assert : Pc B → Disk B → Prop
  | .rRing b idx, x | .rWait b idx, x | .rSleep b idx, x => Asked x b idx
  | .rPublish b idx, x => Asked x b idx ∧ x.avail.ring (Ring.slot x.avail.idx) = idx.head
  | .rDone _ idx, x => Linked x.desc idx ∧ x.stage idx.head = .finished
  | .rFree _ idx i, x | .rFreeWake _ idx (some i), x => Unlinking x.desc idx i
  | .iClear id, x | .iWake _ id, x | .iNext id, x => x.usedIdx ≠ x.used.idx ∧ x.usedFront = id
  | .panicked e, _ => e = .intrStatus
  | _, _ => True

end Asserts

/-- The list holds the requests in certain stages. -/
structure Tracks (l : List Nat) (is : Stage → Bool) (stage : Nat → Stage) : Prop where
  nodup : l.Nodup
  mem : ∀ h, h ∈ l ↔ is (stage h) = true

def Stage.inAvail : Stage → Bool
  | .published => true
  | _ => false

def Stage.inDevice : Stage → Bool
  | .taken => true
  | _ => false

def Stage.inUsed : Stage → Bool
  | .posted | .cleared => true
  | _ => false

structure Rings {B : Type} (x : Disk B) : Prop where
  avail : ∃ l, Ring.Holds x.avail.ring x.lastAvail l x.avail.idx ∧ Tracks l Stage.inAvail x.stage
  device : Tracks x.taken Stage.inDevice x.stage
  used : ∃ l, Ring.Holds x.used.ring x.usedIdx l x.used.idx ∧ Tracks l Stage.inUsed x.stage

def Disk.busy {B : Type} (x : Disk B) (i : Nat) : Bool := i < NUM ∧ x.free i = false

def Pc.count {B : Type} (i : Nat) (l : Pc B) : Int := l.owned.count i

structure Inv {n : Nat} {B : Type} [DecidableEq B] (s : State n B) : Prop where
  lock : LockInv prog held s
  owners : ∀ i, flag (s.shared.busy i) = ∑ q, (s.pc q).count i
  users : ∀ b, flag (s.shared.locked b) = ∑ q, flag ((s.pc q).buf == some b)
  waiters : ∀ h, flag (s.shared.stage h ≠ .idle) = ∑ q, flag ((s.pc q).request == some h)
  handlers : ∀ h, flag (s.shared.stage h = .cleared) = ∑ q, flag ((s.pc q).clears == some h)
  asserts : ∀ p, (s.pc p).assert s.shared
  rings : Rings s.shared

/-! ## §2. What follows at once. -/

section Lists

variable {l : List Nat} {is : Stage → Bool} {stage : Nat → Stage} {j : Nat} {st : Stage}

theorem Tracks.keep (h : Tracks l is stage) (hst : is st = is (stage j)) :
    Tracks l is (update stage j st) := by
  refine ⟨h.nodup, ?_⟩
  intro i
  by_cases hi : i = j
  · rw [hi, update_self, hst]
    exact h.mem j
  · rw [update_of_ne hi]
    exact h.mem i

theorem Tracks.cons (h : Tracks l is stage) (hold : is (stage j) = false) (hst : is st = true) :
    Tracks (j :: l) is (update stage j st) := by
  have hj : j ∉ l := by
    rw [h.mem, hold]
    exact nofun
  refine ⟨nodup_cons.mpr ⟨hj, h.nodup⟩, ?_⟩
  intro i
  by_cases hi : i = j
  · rw [hi, update_self, hst]
    exact ⟨fun _ => rfl, fun _ => mem_cons_self⟩
  · rw [update_of_ne hi, mem_cons]
    exact ⟨fun hm => (h.mem i).mp (hm.resolve_left hi), fun hm => .inr ((h.mem i).mpr hm)⟩

theorem Tracks.perm {l' : List Nat} (h : Tracks l is stage) (hp : l'.Perm l) : Tracks l' is stage :=
  ⟨hp.nodup_iff.mpr h.nodup, fun i => hp.mem_iff.trans (h.mem i)⟩

theorem Tracks.concat (h : Tracks l is stage) (hold : is (stage j) = false) (hst : is st = true) :
    Tracks (l ++ [j]) is (update stage j st) :=
  (h.cons hold hst).perm (perm_append_singleton j l)

theorem Tracks.tail (h : Tracks (j :: l) is stage) (hst : is st = false) :
    Tracks l is (update stage j st) := by
  obtain ⟨hj, hnodup⟩ := nodup_cons.mp h.nodup
  refine ⟨hnodup, ?_⟩
  intro i
  by_cases hi : i = j
  · rw [hi, update_self, hst]
    exact ⟨fun hm => absurd hm hj, nofun⟩
  · rw [update_of_ne hi, ← h.mem i, mem_cons]
    exact ⟨.inr, fun hm => hm.resolve_left hi⟩

theorem Tracks.erase (h : Tracks l is stage) (hj : j ∈ l) (hst : is st = false) :
    Tracks (l.erase j) is (update stage j st) :=
  (h.perm (perm_cons_erase hj).symm).tail hst

theorem Tracks.length_lt (h : Tracks l is stage) (hlt : ∀ i, is (stage i) = true → i < NUM)
    (hj : j < NUM) (hno : is (stage j) = false) : l.length < NUM := by
  have hnot : j ∉ l := by
    rw [h.mem, hno]
    exact nofun
  have hsub : j :: l ⊆ List.range NUM := by
    intro i hi
    rw [mem_range]
    rcases mem_cons.mp hi with hi | hi
    · exact hi ▸ hj
    · exact hlt i ((h.mem i).mp hi)
  have hle := ((nodup_cons.mpr ⟨hnot, h.nodup⟩).subperm hsub).length_le
  rw [length_cons, length_range] at hle
  omega

end Lists

section Weights

variable {B : Type} {i : Nat} {l : Pc B}

theorem count_nonneg (i : Nat) (l : Pc B) : 0 ≤ l.count i := Int.natCast_nonneg _

theorem count_pos (h : i ∈ l.owned) : 0 < l.count i :=
  Int.natCast_pos.mpr (count_pos_iff.mpr h)

theorem head_owned (h : l.request = some i) : i ∈ l.owned := by
  cases l <;> cases h <;> exact mem_cons_self

theorem nothing_outside (h : held l = false) :
    l.request = none ∧ l.clears = none ∧ ∀ x, l.assert x := by
  cases l <;> first | exact ⟨rfl, rfl, fun _ => trivial⟩ | cases h

end Weights

section Facts

variable {n : Nat} {B : Type} [DecidableEq B] {s : State n B} {p q : Fin n} {i : Nat}

theorem Inv.count_le_one (h : Inv s) (i : Nat) : ∑ q, (s.pc q).count i ≤ 1 := by
  rw [← h.owners]
  exact flag_le_one _

theorem Inv.owner_unique (h : Inv s) (hp : i ∈ (s.pc p).owned) (hq : i ∈ (s.pc q).owned) : p = q :=
  eq_of_sum_le_one (count_nonneg i) (h.count_le_one i) (count_pos hp) (count_pos hq)

theorem Inv.busy_of_owned (h : Inv s) (hp : i ∈ (s.pc p).owned) :
    i < NUM ∧ s.shared.free i = false := by
  have hle := le_sum (count_nonneg i) s.pc p
  have hpos := count_pos hp
  rw [← h.owners] at hle
  by_contra hno
  have hbusy : s.shared.busy i = false := decide_eq_false hno
  rw [hbusy] at hle
  have : flag false = 0 := rfl
  omega

theorem Inv.owned_nodup (h : Inv s) (p : Fin n) : (s.pc p).owned.Nodup := by
  rw [nodup_iff_count_le_one]
  intro i
  have hle := (le_sum (count_nonneg i) s.pc p).trans (h.count_le_one i)
  have hcount : (s.pc p).count i = ((s.pc p).owned.count i : Int) := rfl
  omega

theorem Inv.user_unique (h : Inv s) {b : B} (hp : (s.pc p).buf = some b)
    (hq : (s.pc q).buf = some b) : p = q :=
  eq_of_flag_sum (t := fun l : Pc B => l.buf == some b) (h.users b) (beq_iff_eq.mpr hp)
    (beq_iff_eq.mpr hq)

variable {j : Nat}

section

variable (h : Inv s)

include h

theorem Inv.waiter (hj : s.shared.stage j ≠ .idle) : ∃ p, (s.pc p).request = some j := by
  obtain ⟨p, hp⟩ := exists_of_flag_sum (t := fun l : Pc B => l.request == some j) (h.waiters j)
    (decide_eq_true hj)
  exact ⟨p, beq_iff_eq.mp hp⟩

theorem Inv.stage_of_request (hp : (s.pc p).request = some j) : s.shared.stage j ≠ .idle :=
  of_decide_eq_true (of_flag_sum (t := fun l : Pc B => l.request == some j) (h.waiters j)
    (beq_iff_eq.mpr hp))

theorem Inv.handler (hj : s.shared.stage j = .cleared) : ∃ p, (s.pc p).clears = some j := by
  obtain ⟨p, hp⟩ := exists_of_flag_sum (t := fun l : Pc B => l.clears == some j) (h.handlers j)
    (decide_eq_true hj)
  exact ⟨p, beq_iff_eq.mp hp⟩

theorem Inv.stage_of_clears (hp : (s.pc p).clears = some j) : s.shared.stage j = .cleared :=
  of_decide_eq_true (of_flag_sum (t := fun l : Pc B => l.clears == some j) (h.handlers j)
    (beq_iff_eq.mpr hp))

theorem Inv.waiter_lt (hj : s.shared.stage j ≠ .idle) : j < NUM := by
  obtain ⟨p, hp⟩ := h.waiter hj
  exact (h.busy_of_owned (head_owned hp)).1

theorem Inv.stage_idle (hp : i ∈ (s.pc p).owned) (hno : (s.pc p).request = none) :
    s.shared.stage i = .idle := by
  by_contra hne
  obtain ⟨q, hq⟩ := h.waiter hne
  rw [h.owner_unique (head_owned hq) hp, hno] at hq
  cases hq

section

variable (hm : s.mode p = .running) (hp : held (s.pc p) = true)

include hm hp

theorem Inv.others (hq : q ≠ p) :
    held (s.pc q) = false ∨ (∃ b write sector, s.pc q = .rUndo b write sector []) ∨
      ∃ b idx, s.pc q = .rSleep b idx := by
  by_contra hno
  rw [not_or, not_or, Bool.not_eq_false] at hno
  apply hq
  apply h.lock.unique hm hp hno.1
  intro c l hc
  change code (s.pc q) = _ at hc
  unfold code at hc
  split at hc <;> cases hc
  · next b write sector hl => exact hno.2.1 ⟨_, _, _, hl⟩
  · next b idx hl => exact hno.2.2 ⟨_, _, hl⟩

theorem Inv.not_cleared (hno : (s.pc p).clears = none) (j : Nat) : s.shared.stage j ≠ .cleared := by
  intro hj
  obtain ⟨q, hq⟩ := h.handler hj
  by_cases hqp : q = p
  · rw [hqp, hno] at hq
    cases hq
  · rcases h.others hm hp hqp with hl | ⟨b, write, sector, hl⟩ | ⟨b, idx, hl⟩
    · rw [(nothing_outside hl).2.1] at hq
      cases hq
    · rw [hl] at hq
      cases hq
    · rw [hl] at hq
      cases hq

theorem Inv.sleeper (hq : q ≠ p)
    (hr : (s.pc q).request = some j) : ∃ b idx, s.pc q = .rSleep b idx ∧ idx.head = j := by
  rcases h.others hm hp hq with hl | ⟨b, write, sector, hl⟩ | ⟨b, idx, hl⟩
  · rw [(nothing_outside hl).1] at hr
    cases hr
  · rw [hl] at hr
    cases hr
  · rw [hl] at hr
    exact ⟨b, idx, hl, Option.some.inj hr⟩

end

end

end Facts

end Xv6.Virtio
