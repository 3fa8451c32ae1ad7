/-
  Xv6.Proc.Top — top (proc.c): the processes in order of their cpu usage.

  Read from its end, the filled part of the list is ordered, and a turn of the loop is an
  `orderedInsert`.
-/
import Xv6.Lib.Bytes
import Xv6.Proc.Listings

namespace Xv6.Listings

open Lib List

/-! ## §1. The code. -/

structure Top where
  count : Int32
  processes : Nat → ProcInfo

/-- The inner loop from `i = k - 1` down: `i + 1` at its end, and the shifted entries. -/
def shift (ticks : UInt32) : Nat → (Nat → ProcInfo) → Nat × (Nat → ProcInfo)
  | 0, a => (0, a)
  | k + 1, a =>
    if (a k).cpuUsage.sumOfTicks ≤ ticks then shift ticks k (put a (k + 1) (a k)) else (k + 1, a)

def entry (t : Table) (p : Slot) (old : ProcInfo) : ProcInfo :=
  { filled t p old with cpuUsage := (t.proc p).cpuUsage }

def topStep (t : Table) (st : Nat × Top) (p : Slot) : Nat × Top :=
  if (t.proc p).state = .UNUSED then st
  else
    let r := shift (t.proc p).cpuUsage.sumOfTicks st.1 st.2.processes
    (st.1 + 1,
      { count := st.2.count + 1
        processes := put r.2 r.1 (entry t p (r.2 r.1)) })

def top (t : Table) (old : Top) : Top :=
  ((List.finRange NPROC).foldl (topStep t) (0, { old with count := 0 })).2

/-! ## §2. One turn. -/

variable (t : Table)

def ticksOf (p : Slot) : UInt32 := (t.proc p).cpuUsage.sumOfTicks

/-- What the entry of `p` should be. -/
def infoOf (p : Slot) : ProcInfo :=
  { name := strncpy (t.name p)
    pid := (t.proc p).pid
    ppid := ((t.proc p).parent.map fun q => (t.proc q).pid).getD 0
    state := (t.proc p).state
    cpuUsage := (t.proc p).cpuUsage }

/-- The first entries are those of `R`, the last one first. -/
def Filled (a : Nat → ProcInfo) : List Slot → Prop
  | [] => True
  | q :: R => a R.length = infoOf t q ∧ Filled a R

variable {R : List Slot}

theorem Filled.congr {a a' : Nat → ProcInfo} (h : Filled t a R)
    (heq : ∀ i < R.length, a' i = a i) : Filled t a' R := by
  induction R with
  | nil => trivial
  | cons q R ih =>
    refine ⟨(heq R.length (Nat.lt_succ_self _)).trans h.1, ih h.2 fun i hi => ?_⟩
    exact heq i (Nat.lt_succ_of_lt hi)

/-- By induction on the filled entries, from the last one on. -/
theorem shift_inserts (p : Slot) (R : List Slot) (a : Nat → ProcInfo) (h : Filled t a R)
    {r : Nat × (Nat → ProcInfo)} (hr : shift (ticksOf t p) R.length a = r) :
    Filled t (put r.2 r.1 (entry t p (r.2 r.1)))
        (R.orderedInsert (fun p q => ticksOf t p < ticksOf t q) p) ∧
      ∀ i, R.length < i → put r.2 r.1 (entry t p (r.2 r.1)) i = a i := by
  induction R generalizing a with
  | nil =>
    subst hr
    exact ⟨⟨put_self _ _ _, trivial⟩, fun i hi => put_of_ne (Nat.ne_of_gt hi)⟩
  | cons q R ih =>
    have hq : (a R.length).cpuUsage.sumOfTicks = ticksOf t q := by rw [h.1]; rfl
    rw [length_cons, shift, hq] at hr
    rw [length_cons, List.orderedInsert]
    by_cases hle : ticksOf t q ≤ ticksOf t p
    · rw [if_pos hle] at hr
      rw [if_neg (UInt32.not_lt.mpr hle)]
      have hkept : Filled t (put a (R.length + 1) (a R.length)) R :=
        h.2.congr t fun i hi => put_of_ne (by omega)
      obtain ⟨hin, hout⟩ := ih _ hkept hr
      refine ⟨⟨?_, hin⟩, fun i hi => ?_⟩
      · rw [orderedInsert_length, hout _ (by omega), put_self]
        exact h.1
      · rw [hout i (by omega), put_of_ne (by omega)]
    · rw [if_neg hle] at hr
      rw [if_pos (UInt32.not_le.mp hle)]
      subst hr
      refine ⟨⟨put_self _ _ _, h.congr t fun i hi => put_of_ne ?_⟩, fun i hi => put_of_ne ?_⟩
      · exact Nat.ne_of_lt hi
      · exact Nat.ne_of_gt hi

/-! ## §3. The order. -/

/-- `p` has used more than `q`, or as much and comes later in the table. -/
def Before (p q : Slot) : Prop :=
  ticksOf t q < ticksOf t p ∨ ticksOf t p = ticksOf t q ∧ q < p

theorem pairwise_orderedInsert {p : Slot}
    (h : R.Pairwise fun p q => Before t q p) (hp : ∀ q ∈ R, q < p) :
    (R.orderedInsert (fun p q => ticksOf t p < ticksOf t q) p).Pairwise
      fun p q => Before t q p := by
  induction R with
  | nil => exact pairwise_singleton _ _
  | cons q R ih =>
    obtain ⟨hq, hR⟩ := pairwise_cons.mp h
    rw [List.orderedInsert]
    split
    · next hlt =>
      refine pairwise_cons.mpr ⟨fun e he => .inl ?_, h⟩
      rcases mem_cons.mp he with rfl | he
      · exact hlt
      · rcases hq e he with hmore | ⟨heq, _⟩
        · exact UInt32.lt_trans hlt hmore
        · rw [heq]
          exact hlt
    · next hge =>
      refine pairwise_cons.mpr ⟨fun e he => ?_, ih hR fun q' hq' => hp q' (by simp [hq'])⟩
      rcases (mem_orderedInsert _).mp he with rfl | he
      · have hlt := hp q (by simp)
        rcases UInt32.lt_or_eq_of_le (UInt32.not_lt.mp hge) with hless | heq
        · exact .inl hless
        · exact .inr ⟨heq.symm, hlt⟩
      · exact hq e he

/-! ## §4. The whole table. -/

/-- `index` and `*t` after the slots of `l`; `R` are the processes from the last entry on. -/
structure Ranking (old : Top) (l R : List Slot) (st : Nat × Top) : Prop where
  perm : R.Perm (l.filter fun p => (t.proc p).state ≠ .UNUSED)
  order : R.Pairwise fun p q => Before t q p
  index : st.1 = R.length
  count : st.2.count = .ofNat R.length
  filled : Filled t st.2.processes R
  rest : ∀ i, R.length ≤ i → st.2.processes i = old.processes i

variable {t}

theorem Ranking.step {old : Top} {l R : List Slot} {st : Nat × Top} {p : Slot}
    (h : Ranking t old l R st) (hp : ∀ q ∈ l, q < p) :
    ∃ R', Ranking t old (l ++ [p]) R' (topStep t st p) := by
  unfold topStep
  split
  · next hunused =>
    refine ⟨R, ?_, h.order, h.index, h.count, h.filled, h.rest⟩
    simpa [hunused] using h.perm
  · next hused =>
    rw [h.index]
    obtain ⟨hin, hout⟩ := shift_inserts t p R st.2.processes h.filled rfl
    have hmem : ∀ q ∈ R, q < p := fun q hq => hp q (mem_of_mem_filter (h.perm.mem_iff.mp hq))
    refine ⟨_, ?_, pairwise_orderedInsert t h.order hmem, ?_, ?_, hin, fun i hi => ?_⟩
    · refine (perm_orderedInsert _ p R).trans ?_
      rw [filter_append]
      simpa [hused] using (h.perm.cons p).trans (perm_append_singleton p _).symm
    · rw [orderedInsert_length]
    · rw [orderedInsert_length, Int32.ofNat_add, ← h.count]
      rfl
    · rw [orderedInsert_length] at hi
      exact (hout i (by omega)).trans (h.rest i (by omega))

theorem exists_ranking (old : Top) (l : List Slot) (hl : l.Pairwise (· < ·)) :
    ∃ R, Ranking t old l R (l.foldl (topStep t) (0, { old with count := 0 })) := by
  induction l using List.reverseRecOn with
  | nil => exact ⟨[], .nil, .nil, rfl, rfl, trivial, fun _ _ => rfl⟩
  | append_singleton l p ih =>
    obtain ⟨hl, _, hp⟩ := pairwise_append.mp hl
    obtain ⟨R, hR⟩ := ih hl
    rw [foldl_append]
    exact hR.step fun q hq => hp q hq p (by simp)

theorem Filled.getElem_reverse {a : Nat → ProcInfo} (h : Filled t a R) (i : Nat)
    (hi : i < R.reverse.length) : a i = infoOf t R.reverse[i] := by
  induction R with
  | nil => cases hi
  | cons q R ih =>
    rw [length_reverse, length_cons] at hi
    simp only [reverse_cons]
    by_cases hlast : i < R.length
    · rw [getElem_append_left (by rwa [length_reverse])]
      exact ih h.2 _
    · obtain rfl : i = R.length := by omega
      rw [getElem_append_right (by simp)]
      simpa using h.1

/-- **top sorts the process table**: all processes that are not UNUSED, by decreasing usage and
then by decreasing position, whatever the structure held before. -/
theorem top_sorts (t : Table) (old : Top) :
    ∃ L : List Slot, L.Perm ((List.finRange NPROC).filter fun p => (t.proc p).state ≠ .UNUSED) ∧
      L.Pairwise (Before t) ∧ (top t old).count = .ofNat L.length ∧
      (∀ i (h : i < L.length), (top t old).processes i = infoOf t L[i]) ∧
      ∀ i, L.length ≤ i → (top t old).processes i = old.processes i := by
  obtain ⟨R, hR⟩ := exists_ranking (t := t) old (List.finRange NPROC) (List.pairwise_lt_finRange _)
  have hrest := hR.rest
  have hcount := hR.count
  rw [← List.length_reverse] at hrest hcount
  exact ⟨R.reverse, (List.reverse_perm R).trans hR.perm, List.pairwise_reverse.mpr hR.order, hcount,
    hR.filled.getElem_reverse, hrest⟩

end Xv6.Listings
