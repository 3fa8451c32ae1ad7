/-
  Xv6.Virtio.Protocol — the protocol of the virtio disk: what `Inv` means for the driver.
-/
import Xv6.Virtio.Steps

namespace Xv6.Virtio

open Lib Lib.Monitor Finset

/-! ## §1. The parts of the protocol. -/

section Terms

variable {B : Type}

def Disk.freeCount (x : Disk B) : Nat := ((Finset.range NUM).filter fun i => x.free i = true).card

/-- From the end of alloc3_desc to the beginning of free_chain. -/
def Pc.inFlight : Pc B → Bool
  | .rFormat _ _ _ _ | .rRing _ _ | .rPublish _ _ | .rWait _ _ | .rSleep _ _ | .rDone _ _ => true
  | _ => false

/-- The descriptors of a request that has been formatted. -/
def Pc.idx : Pc B → Option Idx
  | .rRing _ idx | .rPublish _ idx | .rWait _ idx | .rSleep _ idx | .rDone _ idx => some idx
  | _ => none

def chainFrom (desc : Nat → Desc B) : Nat → Nat → List Nat
  | 0, _ => []
  | k + 1, i => i :: if (desc i).hasNext then chainFrom desc k (desc i).next else []

end Terms

structure Protocol {n : Nat} {B : Type} (s : State n B) : Prop where
  /-- Every descriptor is free or allocated by one process. -/
  descriptors : s.shared.freeCount + ∑ q, (s.pc q).owned.length = NUM
  inFlight : s.lock = none →
    s.shared.freeCount + 3 * (Finset.univ.filter fun q => (s.pc q).inFlight = true).card = NUM
  /-- The chains of different requests are disjoint. -/
  chains : ∀ p q idx idx', p ≠ q → (s.pc p).idx = some idx → (s.pc q).idx = some idx' →
    List.Disjoint (chainFrom s.shared.desc NUM idx.head) (chainFrom s.shared.desc NUM idx'.head)
  /-- The slot that is written in the avail ring is none of those that the
  device has not taken yet. -/
  avail : ∀ p b idx, s.pc p = .rRing b idx →
    ∀ k < (s.shared.avail.idx - s.shared.lastAvail).toNat,
      (Ring.slot (s.shared.lastAvail + BitVec.ofNat 16 k) : Fin NUM) ≠
        Ring.slot s.shared.avail.idx
  /-- free_desc does not panic, and `info[id].b` is no null pointer. -/
  panics : ∀ p e, s.pc p = .panicked e → e = .intrStatus
  /-- virtio_disk_intr clears `b->disk` for the buffer of a request that the
  device has posted. -/
  clears : ∀ p id, s.pc p = .iClear id → s.shared.stage id = .posted ∧
    ∃ q b idx, s.pc q = .rSleep b idx ∧ idx.head = id ∧ (s.shared.info id).b = some b
  returns : ∀ p b idx, s.pc p = .rDone b idx → s.shared.stage idx.head = .finished

/-! ## §2. From the invariant. -/

section Counts

variable {n : Nat} {B : Type} [DecidableEq B] {s : State n B}

theorem freeCount_add_busy {B : Type} (x : Disk B) :
    (x.freeCount : Int) + ∑ i ∈ Finset.range NUM, flag (x.busy i) = NUM := by
  have hfree : (x.freeCount : Int) = ∑ i ∈ Finset.range NUM, flag (x.free i) := by
    rw [Disk.freeCount, card_filter]
    push_cast
    rfl
  rw [hfree, ← sum_add_distrib]
  have hone : ∀ i ∈ Finset.range NUM, flag (x.free i) + flag (x.busy i) = 1 := by
    intro i hi
    have hlt := mem_range.mp hi
    cases hf : x.free i <;> simp [Disk.busy, hf, hlt, flag]
  rw [sum_congr rfl hone]
  rfl

theorem Inv.sum_busy (h : Inv s) : ∑ i ∈ Finset.range NUM, flag (s.shared.busy i) =
    ∑ q, ((s.pc q).owned.length : Int) := by
  calc ∑ i ∈ Finset.range NUM, flag (s.shared.busy i)
      = ∑ i ∈ Finset.range NUM, ∑ q, (s.pc q).count i := sum_congr rfl fun i _ => h.owners i
    _ = ∑ q, ∑ i ∈ Finset.range NUM, (s.pc q).count i := sum_comm
    _ = ∑ q, ((s.pc q).owned.length : Int) := by
        apply sum_congr rfl
        intro q _
        have hcard := Multiset.sum_count_eq_card (s := Finset.range NUM)
          (m := ((s.pc q).owned : Multiset Nat)) fun i hi =>
            mem_range.mpr (h.busy_of_owned (p := q) hi).1
        simp only [Multiset.coe_count, Multiset.coe_card] at hcard
        rw [← hcard]
        push_cast
        rfl

theorem Inv.descriptors (h : Inv s) : s.shared.freeCount + ∑ q, (s.pc q).owned.length = NUM := by
  have hsum := freeCount_add_busy s.shared
  rw [h.sum_busy] at hsum
  exact_mod_cast hsum

theorem Inv.owned_length (h : Inv s) (hlock : s.lock = none) (q : Fin n) :
    (s.pc q).owned.length = if (s.pc q).inFlight = true then 3 else 0 := by
  have hcases : held (s.pc q) = false ∨ ∃ c l, prog.code (s.pc q) = .sleep c l := by
    cases hheld : held (s.pc q) with
    | false => exact .inl rfl
    | true =>
      refine .inr (h.lock.sleeping q ?_)
      rw [← Bool.not_eq_true]
      intro hactive
      have hsome := (h.lock.holder q).mpr ⟨hheld, hactive⟩
      rw [hlock] at hsome
      cases hsome
  generalize s.pc q = l at hcases
  rcases hcases with hl | ⟨c, l', hc⟩
  · cases l <;> first | rfl | cases hl
  · change code l = _ at hc
    unfold code at hc
    split at hc <;> cases hc <;> rfl

end Counts

theorem Linked.chainFrom_eq {B : Type} {desc : Nat → Desc B} {idx : Idx} (h : Linked desc idx) :
    chainFrom desc NUM idx.head = idx.list := by
  obtain ⟨h₀, hdata, h₁, hstatus, h₂⟩ := h.chain
  simp [chainFrom, h₀, hdata, h₁, hstatus, show (desc idx.status).hasNext = false from h₂, Idx.list]

section Parts

variable {n : Nat} {B : Type} [DecidableEq B] {s : State n B}

theorem Inv.linked (h : Inv s) {p : Fin n} {idx : Idx} (hp : (s.pc p).idx = some idx) :
    Linked s.shared.desc idx ∧ (s.pc p).owned = idx.list := by
  have hassert := h.asserts p
  generalize s.pc p = l at hp hassert
  cases l <;> cases hp
  · exact ⟨hassert.linked, rfl⟩
  · exact ⟨hassert.1.linked, rfl⟩
  · exact ⟨hassert.linked, rfl⟩
  · exact ⟨hassert.linked, rfl⟩
  · exact ⟨hassert.1, rfl⟩

theorem Inv.chains (h : Inv s) {p q : Fin n} {idx idx' : Idx} (hne : p ≠ q)
    (hp : (s.pc p).idx = some idx) (hq : (s.pc q).idx = some idx') :
    List.Disjoint (chainFrom s.shared.desc NUM idx.head)
      (chainFrom s.shared.desc NUM idx'.head) := by
  obtain ⟨hlink, hown⟩ := h.linked hp
  obtain ⟨hlink', hown'⟩ := h.linked hq
  rw [hlink.chainFrom_eq, hlink'.chainFrom_eq, ← hown, ← hown']
  intro i hi hi'
  exact hne (h.owner_unique hi hi')

theorem Inv.avail (h : Inv s) {p : Fin n} {b : B} {idx : Idx} (hp : s.pc p = .rRing b idx) {k : Nat}
    (hk : k < (s.shared.avail.idx - s.shared.lastAvail).toNat) :
    (Ring.slot (s.shared.lastAvail + BitVec.ofNat 16 k) : Fin NUM) ≠
      Ring.slot s.shared.avail.idx := by
  obtain ⟨l, hholds, htracks⟩ := h.rings.avail
  have hown : idx.head ∈ (s.pc p).owned := by
    rw [hp]
    exact List.mem_cons_self
  have hidle := h.stage_idle hown (by rw [hp]; rfl)
  -- at least the own head is not in the ring
  have hlen : l.length < NUM := by
    apply htracks.length_lt _ (h.busy_of_owned hown).1 (by rw [hidle]; rfl)
    intro i hi
    apply h.waiter_lt
    intro he
    rw [he] at hi
    cases hi
  apply hholds.slot_ne (by decide) hlen
  rwa [hholds.sub_toNat (by decide)] at hk

/-- **The protocol of the virtio disk** holds in every state of every run. -/
theorem virtio_protocol (h : DiskRun s) : Protocol s := by
  have hinv := run_inv h
  refine ⟨hinv.descriptors, ?_, ?_, ?_, ?_, ?_, ?_⟩
  · intro hlock
    have hsum := hinv.descriptors
    have hlen : ∑ q, (s.pc q).owned.length =
        3 * (Finset.univ.filter fun q => (s.pc q).inFlight = true).card := by
      rw [Finset.sum_congr rfl fun q _ => hinv.owned_length hlock q, ← Finset.sum_filter,
        Finset.sum_const, smul_eq_mul, Nat.mul_comm]
    omega
  · exact fun p q idx idx' hne hp hq => hinv.chains hne hp hq
  · exact fun p b idx hp k hk => hinv.avail hp hk
  · intro p e hp
    have hassert := hinv.asserts p
    rwa [hp] at hassert
  · intro p id hp
    have hm := hinv.lock.running (p := p) (by rw [hp]; rfl)
    exact ⟨hinv.posted hm hp, hinv.completes hm hp⟩
  · intro p b idx hp
    have hassert := hinv.asserts p
    rw [hp] at hassert
    exact hassert.2

end Parts

def readCompletes : List (Act 2 (Input Bool)) :=
  List.replicate 11 (.go 0 (.rw false false 45)) ++ [.env .take, .env (.post 0 0)] ++
    List.replicate 4 (.go 1 .intr)

theorem virtio_protocol_readCompletes : ∃ s : State 2 Bool, DiskRun s ∧ s.pc 1 = .iClear 0 ∧
    s.mode 0 = .asleep (.buf false) ∧ s.shared.stage 0 = .posted := by
  have hacts : (runActs prog (fun _ _ => True) (start Disk.init .idle) readCompletes).any
      (fun s : State 2 Bool => s.pc 1 = .iClear 0 ∧ s.mode 0 = .asleep (.buf false)) = true := by
    decide +kernel
  obtain ⟨s, hs, htest⟩ := exists_run_runActs hacts
  obtain ⟨hpc, hmode⟩ := of_decide_eq_true htest
  have hrun : DiskRun s := hs
  exact ⟨s, hrun, hpc, hmode, ((virtio_protocol hrun).clears 1 0 hpc).1⟩

end Xv6.Virtio
