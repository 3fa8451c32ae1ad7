/-
  Xv6.Heap.Integrity — the heap of a user program stays intact.

  `s.size` is a `uint`: once the free list can hold a block of 2^32 units, the size
  of a joined block wraps around and memory is lost.
-/
import Xv6.Heap.Malloc

namespace Xv6.Umalloc

open Lib Finset

/-! ## §1. The intact heap. -/

def Apart (h : Heap) (a b : Nat) : Prop := a + h.len a ≤ b ∨ b + h.len b ≤ a

/-- The free list from `freep` on is a circle; `low` are the blocks after its wrap. All blocks are
apart, and no free one ends where another one starts. -/
structure Intact (base : Nat) (s : State) (low high : List Nat) : Prop where
  freep : high.head? = some s.heap.freep
  circle : Circle s.heap.ptr (high ++ low)
  sorted : (low ++ high).Pairwise fun a b => a < b ∧ a + s.heap.len a < b
  large : ∀ a ∈ s.live, s.asked a + HEADER ≤ s.heap.len a
  live : ∀ a ∈ s.live, ∀ b ∈ s.live, a ≠ b → Apart s.heap a b
  free : ∀ a ∈ s.live, ∀ b ∈ low ++ high, Apart s.heap a b
  base : ∀ x, base ≤ x → x < base + HEADER → ¬ s.heap.InRegions x
  /-- No byte is lost. -/
  cover : ∀ x, s.heap.InRegions x ↔
    ∃ a, (a ∈ s.live ∨ a ∈ low ++ high) ∧ a ≤ x ∧ x < a + s.heap.len a

/-- Before the first call of malloc there is nothing. -/
def HeapOk (base : Nat) (s : State) : Prop :=
  s.heap.freep = 0 ∧ s.live = ∅ ∧ s.heap.regions = [] ∨ ∃ low high, Intact base s low high

def Inv (base : Nat) (s : State) : Prop :=
  s.heap.freep = 0 ∧ s.live = ∅ ∧ s.heap.regions = [] ∨
    ∃ F, HeapInv base s.heap F s.live ∧ ∀ a ∈ s.live, s.asked a + HEADER ≤ s.heap.len a

section

variable {base : Nat} {s s' : State} {a : Act} {F : Finset Nat}

theorem HeapInv.intact (hi : HeapInv base s.heap F s.live)
    (hlarge : ∀ a ∈ s.live, s.asked a + HEADER ≤ s.heap.len a) :
    ∃ low high, Intact base s low high := by
  obtain ⟨low, high, hsorted, hmem, hcircle⟩ := hi.ring.circle hi.freep_mem
  have hapart : ∀ a ∈ F ∪ s.live, ∀ b ∈ F ∪ s.live, a ≠ b → Apart s.heap a b := by
    intro a ha b hb hne
    rcases Nat.lt_or_gt_of_ne hne with hlt | hgt
    · exact .inl (hi.tiles.apart a ha b hb hlt)
    · exact .inr (hi.tiles.apart b hb a ha hgt)
  refine ⟨low, s.heap.freep :: high, ?_⟩
  constructor
  · rfl
  · exact hcircle
  · refine hsorted.imp_of_mem fun {x y} hx hy hlt => ⟨hlt, ?_⟩
    have hxF := (hmem x).mpr hx
    have hyF := (hmem y).mpr hy
    have hle := hi.tiles.apart x (mem_union_left _ hxF) y (mem_union_left _ hyF) hlt
    have hne := hi.gaps x hxF y hyF hlt
    omega
  · exact hlarge
  · intro a ha b hb hne
    exact hapart a (mem_union_right F ha) b (mem_union_right F hb) hne
  · intro a ha b hb
    have hbF := (hmem b).mpr hb
    refine hapart a (mem_union_right F ha) b (mem_union_left _ hbF) fun he => ?_
    exact hi.notMem_live hbF (he ▸ ha)
  · exact hi.header
  · intro x
    rw [hi.tiles.cover x]
    refine exists_congr fun a => and_congr_left fun _ => ?_
    rw [mem_union, hmem a, or_comm]

theorem Inv.heapOk (h : Inv base s) : HeapOk base s := by
  rcases h with hstart | ⟨F, hi, hlarge⟩
  · exact .inl hstart
  · exact .inr (hi.intact hlarge)

/-! ## §2. Steps. -/

theorem heapInv_start {h : Heap} (hbase : 0 < base) (hfreep : h.freep = 0)
    (hregions : h.regions = []) : HeapInv base (h.start base) {base} ∅ := by
  have heq : h.start base = { (h.setPtr base base).setSize base 0 with freep := base } :=
    if_pos hfreep
  have hno : ∀ x, ¬ Heap.InRegions (h.start base) x := by
    rintro x ⟨r, hr, _⟩
    rw [heq] at hr
    change r ∈ h.regions at hr
    rw [hregions] at hr
    cases hr
  have hsize : (h.start base).size base = 0 := by
    rw [heq]
    exact put_self ..
  have hreg : (h.start base).regions = [] := by
    rw [heq]
    exact hregions
  constructor
  · apply IsRing.singleton
    rw [heq]
    exact put_self ..
  · constructor
    · intro a ha b hb hab
      rw [union_empty, mem_singleton] at ha hb
      omega
    · intro x
      refine ⟨fun hx => absurd hx (hno x), ?_⟩
      rintro ⟨a, ha, hax, hxa⟩
      rw [union_empty, mem_singleton] at ha
      rw [ha, Heap.len, hsize] at hxa
      omega
  · exact disjoint_empty_right _
  · exact mem_singleton_self base
  · exact hsize
  · rw [heq]
    exact mem_singleton_self base
  · intro a ha hne
    rw [union_empty, mem_singleton] at ha
    exact absurd ha hne
  · intro a ha
    rw [union_empty, mem_singleton] at ha
    omega
  · intro a ha b hb hab
    rw [mem_singleton] at ha hb
    omega
  · exact fun x _ _ => hno x
  · rw [hreg]
    simp
  · rw [hreg, union_empty, sum_singleton]
    exact hsize
  · rw [hreg]
    decide

theorem Inv.started (h : Inv base s) (hbase : 0 < base) :
    ∃ F, HeapInv base (s.heap.start base) F s.live ∧
      (∀ a ∈ s.live, s.asked a + HEADER ≤ (s.heap.start base).len a) ∧
      (s.heap.start base).regions = s.heap.regions := by
  rcases h with ⟨hfreep, hlive, hregions⟩ | ⟨F, hi, hlarge⟩
  · refine ⟨{base}, ?_, ?_, ?_⟩
    · rw [hlive]
      exact heapInv_start hbase hfreep hregions
    · rw [hlive]
      simp
    · unfold Heap.start
      rw [if_pos hfreep]
      rfl
  · have hne : s.heap.freep ≠ 0 :=
      Nat.ne_of_gt (hi.nonzero _ (mem_union_left _ hi.freep_mem))
    have heq : s.heap.start base = s.heap := if_neg hne
    rw [heq]
    exact ⟨F, hi, hlarge, rfl⟩

theorem unitsFor_enough (nbytes : UInt32) :
    nbytes.toNat + HEADER ≤ HEADER * Heap.unitsFor nbytes.toNat := by
  have hlt := nbytes.toNat_lt
  have hH : HEADER = 16 := rfl
  unfold Heap.unitsFor uint
  rw [hH]
  omega

theorem unitsFor_pos (nbytes : UInt32) : 0 < Heap.unitsFor nbytes.toNat := by
  have henough := unitsFor_enough nbytes
  have hH : HEADER = 16 := rfl
  rw [hH] at henough
  omega

theorem Inv.give (h : Inv base s) (hbase : 0 < base) {nbytes : UInt32} {r : Heap × Nat}
    (hout : Outcome base (s.heap.start base) s.live (Heap.unitsFor nbytes.toNat) r) :
    Inv base (s.give nbytes.toNat r) := by
  obtain ⟨F, hi, hlarge, _⟩ := h.started hbase
  right
  rcases hout with rfl | ⟨F', b, hgiven, hb⟩
  · exact ⟨F, hi, hlarge⟩
  · have hne : r.2 ≠ 0 := by
      rw [hb]
      exact Nat.ne_of_gt (Nat.lt_of_lt_of_le (by decide) (Nat.le_add_left HEADER b))
    have hheader : r.2 - HEADER = b := by
      rw [hb, Nat.add_sub_cancel]
    unfold State.give
    rw [if_neg hne, hheader]
    refine ⟨F', hgiven.inv, fun a ha => ?_⟩
    show put s.asked b nbytes.toNat a + HEADER ≤ HEADER * r.1.size a
    rcases mem_insert.mp ha with rfl | ha
    · rw [put_self, hgiven.size]
      exact unitsFor_enough nbytes
    · have hab : a ≠ b := fun he => hgiven.new (he ▸ ha)
      rw [put_of_ne hab, hgiven.others a ha]
      exact hlarge a ha

variable {answers : List (Option Nat)}

theorem Inv.malloc_returns (h : Inv base s) (hbase : 0 < base) {nbytes : UInt32}
    (hok : SbrkOk base s (.malloc nbytes answers))
    (hroom : Room s (.malloc nbytes answers)) :
    ∃ N r, Outcome base (s.heap.start base) s.live (Heap.unitsFor nbytes.toNat) r ∧
      ∀ fuel, N < fuel → s.heap.malloc base fuel nbytes.toNat answers = some r := by
  obtain ⟨F, hi, _, hregions⟩ := h.started hbase
  apply hi.loop_returns (unitsFor_pos nbytes) hok.2.1
  · rw [hregions]
    exact hok.2.2
  · rintro q l rfl
    rw [hregions]
    exact hroom

theorem mallocLoop_le {nunits fuel fuel' q p : Nat} {h : Heap}
    {r : Heap × Nat} (hloop : Heap.mallocLoop nunits fuel h q p answers = some r)
    (hle : fuel ≤ fuel') : Heap.mallocLoop nunits fuel' h q p answers = some r := by
  induction fuel', hle using Nat.le_induction with
  | base => exact hloop
  | succ fuel' _ ih => exact mallocLoop_mono ih

theorem free_le {fuel fuel' ap : Nat} {h k : Heap} (hfree : h.free fuel ap = some k)
    (hle : fuel ≤ fuel') : h.free fuel' ap = some k := by
  induction fuel', hle using Nat.le_induction with
  | base => exact hfree
  | succ fuel' _ ih => exact free_mono ih

theorem Inv.free (h : Inv base s) {bp : Nat} (hbp : bp ∈ s.live) :
    ∃ N k, (∀ fuel, N < fuel → s.heap.free fuel (bp + HEADER) = some k) ∧
      Inv base { s with heap := k, live := s.live.erase bp } := by
  rcases h with ⟨_, hlive, _⟩ | ⟨F, hi, hlarge⟩
  · rw [hlive] at hbp
    cases hbp
  · obtain ⟨N, k, F', hfreed, hreturns⟩ := hi.free_returns hbp
    refine ⟨N, k, hreturns, .inr ⟨F', hfreed.inv, fun a ha => ?_⟩⟩
    obtain ⟨hab, ha⟩ := mem_erase.mp ha
    show s.asked a + HEADER ≤ HEADER * k.size a
    rw [hfreed.others a ha hab]
    exact hlarge a ha

theorem Inv.store (h : Inv base s) (ptr : Nat → Nat) (size : Nat → Nat) : Inv base { s with heap :=
          { s.heap with
            ptr := fun x => if s.InUse x then ptr x else s.heap.ptr x
            size := fun x => if s.InUse x then size x else s.heap.size x } } := by
  rcases h with hstart | ⟨F, hi, hlarge⟩
  · exact .inl hstart
  · have hfree : ∀ b ∈ F ∪ s.live, ¬ s.InUse b := by
      rintro b hb ⟨a, ha, hab, hba⟩
      have hapart := hi.tiles.apart a (mem_union_right F ha) b hb hab
      have hle := hlarge a ha
      omega
    refine .inr ⟨F, hi.congr (fun a ha => ?_) (fun a ha => ?_) hi.freep_mem rfl, fun a ha => ?_⟩
    · exact if_neg (hfree a (mem_union_left _ ha))
    · exact if_neg (hfree a ha)
    · show s.asked a + HEADER ≤ HEADER * (if s.InUse a then size a else s.heap.size a)
      rw [if_neg (hfree a (mem_union_right F ha))]
      exact hlarge a ha

def Meets (base : Nat) (s : State) (a : Act) : Prop := SbrkOk base s a ∧ Room s a

theorem Inv.step {fuel : Nat} (h : Inv base s) (hbase : 0 < base)
    (hstep : Umalloc.step base fuel s a = some s') (hok : Meets base s a) : Inv base s' := by
  cases a with
  | malloc nbytes answers =>
    obtain ⟨N, r, hout, hreturns⟩ := h.malloc_returns hbase hok.1 hok.2
    obtain ⟨r', hr', rfl⟩ := Option.map_eq_some_iff.mp hstep
    -- more turns do not change the result
    have hlong : s.heap.malloc base (max fuel (N + 1)) nbytes.toNat answers = some r' :=
      mallocLoop_le hr' (Nat.le_max_left ..)
    rw [hreturns _ (Nat.lt_of_lt_of_le (Nat.lt_succ_self N) (Nat.le_max_right ..))] at hlong
    obtain rfl := Option.some.inj hlong
    exact h.give hbase hout
  | free ap =>
    unfold Umalloc.step at hstep
    dsimp only at hstep
    split at hstep
    case isTrue hlive =>
      obtain ⟨k', hk', rfl⟩ := Option.map_eq_some_iff.mp hstep
      obtain ⟨N, k, hreturns, hinv⟩ := h.free hlive.2
      rw [Nat.sub_add_cancel hlive.1] at hreturns
      have hlong := free_le hk' (Nat.le_max_left fuel (N + 1))
      rw [hreturns _ (Nat.lt_of_lt_of_le (Nat.lt_succ_self N) (Nat.le_max_right ..))] at hlong
      obtain rfl := Option.some.inj hlong
      exact hinv
    case isFalse => cases hstep
  | store ptr size =>
    obtain rfl := Option.some.inj hstep
    exact h.store ptr size

theorem inv_of_run (hbase : 0 < base) (h : RunWith base (Meets base) s) : Inv base s := by
  refine Reachable.invariant (Inv base) ?_ ?_ h
  · rintro s rfl
    exact .inl ⟨rfl, rfl, rfl⟩
  · rintro s s' hs ⟨fuel, a, hstep, hok⟩
    exact hs.step hbase hstep hok

/-- A call can be made: malloc at any time, free for a block that the program
has. -/
def Callable (s : State) : Act → Prop
  | .free ap => HEADER ≤ ap ∧ ap - HEADER ∈ s.live
  | _ => True

theorem Inv.returns (h : Inv base s) (hbase : 0 < base) (hcall : Callable s a)
    (hok : Meets base s a) :
    ∃ N, ∀ fuel, N < fuel → ∃ s', Umalloc.step base fuel s a = some s' := by
  cases a with
  | malloc nbytes answers =>
    obtain ⟨N, r, _, hreturns⟩ := h.malloc_returns hbase hok.1 hok.2
    refine ⟨N, fun fuel hfuel => ⟨s.give nbytes.toNat r, ?_⟩⟩
    exact Option.map_eq_some_iff.mpr ⟨r, hreturns fuel hfuel, rfl⟩
  | free ap =>
    obtain ⟨N, k, hreturns, _⟩ := h.free hcall.2
    rw [Nat.sub_add_cancel hcall.1] at hreturns
    refine ⟨N, fun fuel hfuel => ?_⟩
    have hlive : HEADER ≤ ap ∧ ap - HEADER ∈ s.live := hcall
    unfold Umalloc.step
    dsimp only
    rw [if_pos hlive, hreturns fuel hfuel]
    exact ⟨_, rfl⟩
  | store ptr size => exact ⟨0, fun fuel _ => ⟨_, rfl⟩⟩

/-- **The heap stays intact.** In every run in which sbrk returns new memory, less than 2^36 bytes
in all, the free list is a circle in ascending order, all blocks are apart and as large as asked
for, no byte is lost, and every call returns. -/
theorem heap_intact (hbase : 0 < base) (h : RunWith base (Meets base) s) :
    HeapOk base s ∧ ∀ a, Callable s a → Meets base s a →
      ∃ N, ∀ fuel, N < fuel → ∃ s', Umalloc.step base fuel s a = some s' := by
  have hinv := inv_of_run hbase h
  exact ⟨hinv.heapOk, fun a hcall hok => hinv.returns hbase hcall hok⟩

end

/-! ## §3. Two programs. -/

instance (base : Nat) (regions : List (Nat × Nat)) (p nu : Nat) :
    Decidable (Fresh base regions p nu) := inferInstanceAs (Decidable (_ ∧ _ ∧ _))

instance decidableFreshAnswers (base nu : Nat) : (regions : List (Nat × Nat)) →
    (answers : List (Option Nat)) → Decidable (FreshAnswers base nu regions answers)
  | _, [] => isTrue trivial
  | regions, none :: answers => decidableFreshAnswers base nu regions answers
  | regions, some p :: answers =>
    have : Decidable (FreshAnswers base nu ((p, nu) :: regions) answers) :=
      decidableFreshAnswers base nu ((p, nu) :: regions) answers
    inferInstanceAs (Decidable (_ ∧ _))

instance (base : Nat) (s : State) : (a : Act) → Decidable (SbrkOk base s a)
  | .malloc _ _ => inferInstanceAs (Decidable (_ ∧ _ ∧ _))
  | .free _ | .store _ _ => isTrue trivial

instance (s : State) : (a : Act) → Decidable (Room s a)
  | .malloc _ (some _ :: _) => inferInstanceAs (Decidable (_ < _))
  | .malloc _ [] | .malloc _ (none :: _) | .free _ | .store _ _ => isTrue trivial

instance (base : Nat) (s : State) (a : Act) : Decidable (Meets base s a) :=
  inferInstanceAs (Decidable (_ ∧ _))

theorem RunWith.runActs {base fuel : Nat} {ok : State → Act → Prop} [∀ s a, Decidable (ok s a)]
    {s : State} {acts : List Act}
    (h : runActs (stepIf (step base fuel) ok) init acts = some s) : RunWith base ok s := by
  refine Reachable.runActs (fun s a s' hstep => ?_) (.start rfl) h
  unfold stepIf at hstep
  split at hstep
  case isTrue hok => exact ⟨fuel, a, hstep, hok⟩
  case isFalse => cases hstep

def smallProgram : List Act :=
  [.malloc 100 [some 4096], .malloc 50 [none], .store (fun _ => 7) (fun _ => 7), .free 69520]

theorem heap_intact_smallProgram :
    ∃ s, RunWith 16 (Meets 16) s ∧ s.live = {69424} ∧ s.heap.freep = 4096 ∧ HeapOk 16 s := by
  have hacts : (runActs (stepIf (step 16 8) (Meets 16)) init smallProgram).any
      (fun s => s.live = {69424} ∧ s.heap.freep = 4096) = true := by decide +kernel
  obtain ⟨s, hs, htest⟩ := (Option.any_eq_true _ _).mp hacts
  obtain ⟨hlive, hfreep⟩ := of_decide_eq_true htest
  have hrun : RunWith 16 (Meets 16) s := RunWith.runActs hs
  exact ⟨s, hrun, hlive, hfreep, (heap_intact (by decide) hrun).1⟩

/-- 33 blocks of 2^31 - 16 bytes, one behind the other, and all of them freed. -/
def largeProgram : List Act :=
  (List.range 33).map (fun i => .malloc 2147483616 [some (4096 + i * 2147483632)]) ++
    (List.range 33).map fun i => .free (4096 + i * 2147483632 + HEADER)

/-- **The size of a joined block wraps around.** All of the 66 GiB are freed, but the only free
block is smaller. -/
theorem heap_wraps : ∃ s, RunWith 16 (SbrkOk 16) s ∧ ¬ HeapOk 16 s := by
  have hacts : (runActs (stepIf (step 16 8) (SbrkOk 16)) init largeProgram).any
      (fun s => s.live = ∅ ∧ s.heap.freep = 4096 ∧ s.heap.ptr 4096 = 16 ∧ s.heap.ptr 16 = 4096 ∧
        s.heap.size 4096 < 2 ^ 32 ∧ s.heap.size 16 = 0 ∧
        (4096 + 32 * 2147483632, 134217727) ∈ s.heap.regions) = true := by
    decide +kernel
  obtain ⟨s, hs, htest⟩ := (Option.any_eq_true _ _).mp hacts
  obtain ⟨hlive, hfreep, hptr, hptr', hsize, hsize', hregion⟩ := of_decide_eq_true htest
  refine ⟨s, RunWith.runActs hs, ?_⟩
  rintro (⟨hstart, _⟩ | ⟨low, high, hintact⟩)
  · rw [hfreep] at hstart
    cases hstart
  -- the free list has no other blocks than these two
  have hblocks : ∀ x ∈ low ++ high, x = 4096 ∨ x = 16 := by
    have hhead := hintact.freep
    have hcircle := hintact.circle
    cases high with
    | nil => cases hhead
    | cons p high =>
      obtain rfl : p = 4096 := (Option.some.inj hhead).trans hfreep
      have hall := hcircle.forall_mem (fun x => x = 4096 ∨ x = 16) (.inl rfl) ?_
      · intro x hx
        exact hall x (List.mem_append.mpr (List.mem_append.mp hx).symm)
      · rintro x (rfl | rfl)
        · exact .inr hptr
        · exact .inl hptr'
  -- the last byte of the last region
  obtain ⟨a, ha, hle, hlt⟩ := (hintact.cover (4096 + 33 * 2147483632 - 1)).mp
    ⟨_, hregion, by decide, by decide⟩
  have hH : HEADER = 16 := rfl
  rw [Heap.len, hH] at hlt
  rw [hlive] at ha
  rcases ha with ha | ha
  · cases ha
  · rcases hblocks a ha with rfl | rfl
    · omega
    · omega

end Xv6.Umalloc
