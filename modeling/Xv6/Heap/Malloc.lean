/-
  Xv6.Heap.Malloc — the loops of free and malloc come to their end.

  The loop of free meets the gap of its block, and the loop of malloc meets a block
  that fits or is back at `freep`; then morecore adds one that fits.
-/
import Xv6.Heap.Blocks

namespace Xv6.Umalloc

open Lib Finset Option

variable {base : Nat} {h : Heap} {F L : Finset Nat} {p bp nunits : Nat}

/-! ## §1. The loop of free. -/

variable {fuel q : Nat} {answers : List (Option Nat)}

theorem gap_of_findGap (hi : HeapInv base h F L) (hp : p ∈ F)
    (hfind : h.findGap bp fuel p = some q) : q ∈ F ∧ Gap q bp (h.ptr q) := by
  induction fuel generalizing p with
  | zero => cases hfind
  | succ fuel ih =>
    unfold Heap.findGap at hfind
    split at hfind
    case isTrue hin =>
      obtain rfl := Option.some.inj hfind
      exact ⟨hp, .inl hin⟩
    case isFalse =>
      split at hfind
      case isTrue hout =>
        obtain rfl := Option.some.inj hfind
        exact ⟨hp, .inr hout⟩
      case isFalse => exact ih (hi.ring.next_mem hp) hfind

theorem findGap_of_gap (k : Nat) (hgap : Gap (h.ptr^[k] p) bp (h.ptr (h.ptr^[k] p))) :
    ∀ fuel, k < fuel → ∃ q, h.findGap bp fuel p = some q := by
  induction k generalizing p with
  | zero =>
    intro fuel hfuel
    obtain ⟨fuel, rfl⟩ := Nat.exists_eq_succ_of_ne_zero (Nat.ne_of_gt hfuel)
    unfold Heap.findGap
    split
    case isTrue => exact ⟨p, rfl⟩
    case isFalse hin =>
      have hout : h.ptr p ≤ p ∧ (p < bp ∨ bp < h.ptr p) := hgap.resolve_left hin
      rw [if_pos hout]
      exact ⟨p, rfl⟩
  | succ k ih =>
    intro fuel hfuel
    obtain ⟨fuel, rfl⟩ := Nat.exists_eq_succ_of_ne_zero (Nat.ne_of_gt (Nat.zero_lt_of_lt hfuel))
    unfold Heap.findGap
    split
    case isTrue => exact ⟨p, rfl⟩
    case isFalse =>
      split
      case isTrue => exact ⟨p, rfl⟩
      case isFalse => exact ih hgap fuel (by omega)

theorem findGap_mono (hfind : h.findGap bp fuel p = some q) :
    h.findGap bp (fuel + 1) p = some q := by
  induction fuel generalizing p with
  | zero => cases hfind
  | succ fuel ih =>
    unfold Heap.findGap at hfind ⊢
    split
    case isTrue hin =>
      rw [if_pos hin] at hfind
      exact hfind
    case isFalse hin =>
      rw [if_neg hin] at hfind
      split
      case isTrue hout =>
        rw [if_pos hout] at hfind
        exact hfind
      case isFalse hout =>
        rw [if_neg hout] at hfind
        exact ih hfind

/-- **free returns**, and then the block is in the list. -/
theorem HeapInv.free_returns (hi : HeapInv base h F L) (hbp : bp ∈ L) :
    ∃ N k F', Freed base h k F' L bp ∧ ∀ fuel, N < fuel → h.free fuel (bp + HEADER) = some k := by
  obtain ⟨g, hg, hgap⟩ := hi.ring.exists_gap ⟨_, hi.freep_mem⟩ (hi.notMem_free hbp)
  obtain ⟨N, hN⟩ := hi.ring.reach hi.freep_mem hg
  rw [← hN] at hgap
  have hfound := findGap_of_gap N hgap
  obtain ⟨q, hq⟩ := hfound (N + 1) (Nat.lt_succ_self N)
  have hall : ∀ fuel, N < fuel → h.findGap bp fuel h.freep = some q := by
    intro fuel hfuel
    induction fuel, hfuel using Nat.le_induction with
    | base => exact hq
    | succ fuel _ ih => exact findGap_mono ih
  obtain ⟨hqF, hqgap⟩ := gap_of_findGap hi hi.freep_mem hq
  obtain ⟨F', hfreed⟩ := hi.insertAt hbp hqF hqgap
  refine ⟨N, h.insertAt bp q, F', hfreed, fun fuel hfuel => ?_⟩
  unfold Heap.free
  rw [Nat.add_sub_cancel]
  simp only [hall fuel hfuel, map_some]

theorem free_mono {fuel ap : Nat} {k : Heap} (hfree : h.free fuel ap = some k) :
    h.free (fuel + 1) ap = some k := by
  obtain ⟨q, hq, hk⟩ := map_eq_some_iff.mp hfree
  exact map_eq_some_iff.mpr ⟨q, findGap_mono hq, hk⟩

/-! ## §2. New memory. -/

theorem moreUnits_ge (nu : Nat) : nu ≤ Heap.moreUnits nu ∧ 4096 ≤ Heap.moreUnits nu := by
  unfold Heap.moreUnits
  split <;> omega

/-- The block that sbrk has returned belongs to nobody yet; morecore frees it. -/
theorem HeapInv.addRegion {n : Nat} (hi : HeapInv base h F L) (hfresh : Fresh base h.regions p n)
    (hn : 0 < n) (hroom : unitsOf h.regions + n < 2 ^ 32) :
    HeapInv base { h.setSize p n with regions := (p, n) :: h.regions } F (insert p L) ∧
      p ∉ F ∪ L := by
  obtain ⟨hp0, hbase, hapart⟩ := hfresh
  have hH : HEADER = 16 := rfl
  have hpos : 0 < HEADER * n := Nat.mul_pos (by decide) hn
  have hnew : ∀ x, p ≤ x → x < p + HEADER * n → ¬ h.InRegions x := by
    rintro x hpx hxp ⟨r, hr, hlow, hhigh⟩
    rcases hapart r hr with hle | hle <;> omega
  have hB : ∀ b ∈ F ∪ L, b < p ∨ p + HEADER * n ≤ b := by
    intro b hb
    by_contra hin
    by_cases hbb : b = base
    · omega
    · exact hnew b (by omega) (by omega) (hi.tiles.start hb (hi.len_pos hb hbb))
  have hpB : p ∉ F ∪ L := by
    intro hmem
    have hB' := hB p hmem
    omega
  have hne : ∀ x ∈ F ∪ L, x ≠ p := fun x hx he => hpB (he ▸ hx)
  have hpbase : base ≠ p := by omega
  have hin : ∀ x, Heap.InRegions { h.setSize p n with regions := (p, n) :: h.regions } x ↔
      h.InRegions x ∨ p ≤ x ∧ x < p + HEADER * n := by
    intro x
    simp only [Heap.InRegions, List.exists_mem_cons_iff]
    exact or_comm
  refine ⟨?_, hpB⟩
  constructor
  · exact hi.ring
  · rw [union_insert, show Heap.InRegions _ = _ from funext fun x => propext (hin x)]
    refine hi.tiles.add hnew hB hpos ?_ ?_
    · show HEADER * put h.size p n p = HEADER * n
      rw [put_self]
    · intro x hx
      show HEADER * put h.size p n x = HEADER * h.size x
      rw [put_of_ne (hne x hx)]
  · refine disjoint_insert_right.mpr ⟨?_, hi.disjoint⟩
    exact fun hmem => hpB (mem_union_left L hmem)
  · exact hi.base_mem
  · exact (put_of_ne hpbase).trans hi.base_size
  · exact hi.freep_mem
  · intro a ha hab
    show 0 < put h.size p n a
    rw [union_insert] at ha
    rcases mem_insert.mp ha with rfl | ha
    · rw [put_self]
      exact hn
    · rw [put_of_ne (hne a ha)]
      exact hi.pos a ha hab
  · intro a ha
    rw [union_insert] at ha
    rcases mem_insert.mp ha with rfl | ha
    · exact hp0
    · exact hi.nonzero a ha
  · intro a ha b hb hab
    show a + HEADER * put h.size p n a ≠ b
    rw [put_of_ne (hne a (mem_union_left L ha))]
    exact hi.gaps a ha b hb hab
  · intro x hlow hhigh hx
    rcases (hin x).mp hx with hx | hx
    · exact hi.header x hlow hhigh hx
    · omega
  · intro r hr
    rcases List.mem_cons.mp hr with rfl | hr
    · show p + HEADER * n ≠ base
      omega
    · exact hi.ends r hr
  · show ∑ a ∈ F ∪ insert p L, put h.size p n a = unitsOf ((p, n) :: h.regions)
    have hrest : ∑ a ∈ F ∪ L, put h.size p n a = ∑ a ∈ F ∪ L, h.size a :=
      sum_congr rfl fun a ha => put_of_ne (hne a ha)
    rw [union_insert, sum_insert hpB, hrest, put_self, hi.total]
    simp [unitsOf]
  · show unitsOf ((p, n) :: h.regions) < 2 ^ 32
    simp only [unitsOf, List.map_cons, List.sum_cons] at hroom ⊢
    omega

/-- **morecore returns** with a free block that is large enough. -/
theorem HeapInv.morecore_returns (hi : HeapInv base h F L)
    (hfresh : Fresh base h.regions p (Heap.moreUnits nunits))
    (hroom : unitsOf h.regions + Heap.moreUnits nunits < 2 ^ 32) :
    ∃ N k F', HeapInv base k F' L ∧ (∃ c ∈ F', nunits ≤ k.size c) ∧ (∀ a ∈ L, k.size a = h.size a) ∧
      ∀ fuel, N < fuel → h.morecore fuel nunits p = some k := by
  have hunits := moreUnits_ge nunits
  obtain ⟨hadded, hpB⟩ := hi.addRegion hfresh (by omega) hroom
  have hpL : p ∉ L := fun hmem => hpB (mem_union_right F hmem)
  obtain ⟨N, k, F', hfreed, hreturns⟩ := hadded.free_returns (mem_insert_self p L)
  refine ⟨N, k, F', ?_, ?_, ?_, hreturns⟩
  · have hinv := hfreed.inv
    rwa [erase_insert hpL] at hinv
  · obtain ⟨c, hc, hle⟩ := hfreed.fits
    refine ⟨c, hc, le_trans ?_ hle⟩
    show nunits ≤ put h.size p (Heap.moreUnits nunits) p
    rw [put_self]
    exact hunits.1
  · intro a ha
    have hap : a ≠ p := fun he => hpL (he ▸ ha)
    rw [hfreed.others a (mem_insert_of_mem ha) hap]
    exact put_of_ne hap

theorem morecore_mono {fuel : Nat} {k : Heap} (hmore : h.morecore fuel nunits p = some k) :
    h.morecore (fuel + 1) nunits p = some k := free_mono hmore

/-! ## §3. The loop of malloc. -/

structure Given (base : Nat) (h k : Heap) (F L : Finset Nat) (nunits b : Nat) : Prop where
  inv : HeapInv base k F (insert b L)
  new : b ∉ L
  size : k.size b = nunits
  others : ∀ a ∈ L, k.size a = h.size a

theorem HeapInv.carve_exact (hi : HeapInv base h F L) (hp : p ∈ F) (hn : 0 < nunits)
    (hsize : h.size (h.ptr p) = nunits) :
    Given base h { h.setPtr p (h.ptr (h.ptr p)) with freep := p } (F.erase (h.ptr p)) L nunits
      (h.ptr p) := by
  have hnF := hi.ring.next_mem hp
  have hnL := hi.notMem_live hnF
  have hnbase : h.ptr p ≠ base := by
    intro he
    rw [he, hi.base_size] at hsize
    omega
  have hne : h.ptr p ≠ p := by
    intro he
    exact hi.next_ne_self hp (fun hb => hnbase (he.trans hb)) he
  have hunion : F.erase (h.ptr p) ∪ insert (h.ptr p) L = F ∪ L := by
    rw [union_insert, ← insert_union, insert_erase hnF]
  refine ⟨?_, hnL, hsize, fun a _ => rfl⟩
  constructor
  · refine hi.ring.removeAfter hp hne (put_self ..) fun a _ hap _ => put_of_ne hap
  · rw [hunion]
    exact hi.tiles
  · refine disjoint_insert_right.mpr ⟨notMem_erase _ _, ?_⟩
    exact hi.disjoint.mono_left (erase_subset _ _)
  · exact mem_erase.mpr ⟨hnbase.symm, hi.base_mem⟩
  · exact hi.base_size
  · exact mem_erase.mpr ⟨hne.symm, hp⟩
  · rw [hunion]
    exact hi.pos
  · rw [hunion]
    exact hi.nonzero
  · intro a ha b hb hab
    exact hi.gaps a (mem_of_mem_erase ha) b (mem_of_mem_erase hb) hab
  · exact hi.header
  · exact hi.ends
  · rw [hunion]
    exact hi.total
  · exact hi.bound

theorem HeapInv.carve_split {q b : Nat} {k : Heap} (hi : HeapInv base h F L) (hq : q ∈ F)
    (hp : p ∈ F) (hn : 0 < nunits) (hlt : nunits < h.size q)
    (hb : b = q + HEADER * (h.size q - nunits))
    (hk : k = { (h.setSize q (h.size q - nunits)).setSize b nunits with freep := p }) :
    Given base h k F L nunits b := by
  have hH : HEADER = 16 := rfl
  have hq' : q ∈ F ∪ L := mem_union_left L hq
  have hlenq : h.len q = HEADER * h.size q := rfl
  have hbq : b ≠ q := by
    rw [hH] at hb
    omega
  -- b is inside of the block q
  have hbB : b ∉ F ∪ L := by
    intro hmem
    have hapart := hi.tiles.apart q hq' b hmem (by rw [hH] at hb; omega)
    rw [hlenq, hH] at hapart
    rw [hH] at hb
    omega
  have hqbase : q ≠ base := by
    intro he
    rw [he, hi.base_size] at hlt
    omega
  have hbbase : b ≠ base := fun he => hbB (he ▸ mem_union_left L hi.base_mem)
  have hptr : k.ptr = h.ptr := by rw [hk]; rfl
  have hregions : k.regions = h.regions := by rw [hk]; rfl
  have hsize_b : k.size b = nunits := by
    rw [hk]
    exact put_self ..
  have hsize_q : k.size q = h.size q - nunits := by
    rw [hk]
    exact (put_of_ne hbq.symm).trans (put_self ..)
  have hsize : ∀ x, x ≠ q → x ≠ b → k.size x = h.size x := by
    intro x hxq hxb
    rw [hk]
    exact (put_of_ne hxb).trans (put_of_ne hxq)
  have hsizes : k.size q + k.size b = h.size q := by omega
  have hlens : k.len q + k.len b = h.len q := by
    unfold Heap.len
    rw [← Nat.mul_add, hsizes]
  have hlen : ∀ x ∈ F ∪ L, x ≠ q → k.len x = h.len x := by
    intro x hx hxq
    unfold Heap.len
    rw [hsize x hxq fun he => hbB (he ▸ hx)]
  have hlen_q : k.len q = HEADER * (h.size q - nunits) := by
    unfold Heap.len
    rw [hsize_q]
  have hin : k.InRegions = h.InRegions := by
    unfold Heap.InRegions
    rw [hregions]
  have hbL : b ∉ L := fun hmem => hbB (mem_union_right F hmem)
  refine ⟨?_, hbL, hsize_b, ?_⟩
  · constructor
    · rw [hptr]
      exact hi.ring
    · rw [union_insert, hin]
      refine hi.tiles.split hq' ?_ hb.symm hlen_q hlens hlen
      exact Nat.mul_pos (by decide) (by omega)
    · refine disjoint_insert_right.mpr ⟨?_, hi.disjoint⟩
      exact fun hmem => hbB (mem_union_left L hmem)
    · exact hi.base_mem
    · rw [hsize base hqbase.symm hbbase.symm]
      exact hi.base_size
    · rw [hk]
      exact hp
    · intro a ha hab
      rw [union_insert] at ha
      rcases mem_insert.mp ha with rfl | ha
      · rw [hsize_b]
        exact hn
      · by_cases haq : a = q
        · rw [haq, hsize_q]
          omega
        · rw [hsize a haq fun he => hbB (he ▸ ha)]
          exact hi.pos a ha hab
    · intro a ha
      rw [union_insert] at ha
      rcases mem_insert.mp ha with rfl | ha
      · have hpos := hi.nonzero q hq'
        omega
      · exact hi.nonzero a ha
    · intro a ha c hc hac
      have hgap := hi.gaps a ha c hc hac
      by_cases haq : a = q
      · -- q ends earlier than before
        have hapart := hi.tiles.apart a (mem_union_left L ha) c
          (mem_union_left L hc) hac
        have hpos : 0 < k.len b := by
          unfold Heap.len
          rw [hsize_b]
          exact Nat.mul_pos (by decide) hn
        rw [haq] at hapart ⊢
        omega
      · rw [hlen a (mem_union_left L ha) haq]
        exact hgap
    · rw [hin]
      exact hi.header
    · rw [hregions]
      exact hi.ends
    · rw [union_insert, hregions, ← hi.total]
      refine Tiles.sum_split hq' hbB hsizes fun x hx hxq => ?_
      exact hsize x hxq fun he => hbB (he ▸ hx)
    · rw [hregions]
      exact hi.bound
  · intro a ha
    exact hsize a (fun he => hi.notMem_free ha (he ▸ hq)) fun he => hbL (he ▸ ha)

theorem HeapInv.carve (hi : HeapInv base h F L) (hp : p ∈ F) (hn : 0 < nunits)
    (hfit : nunits ≤ h.size (h.ptr p)) :
    ∃ F' b, Given base h (h.carve nunits p (h.ptr p)).1 F' L nunits b ∧
      (h.carve nunits p (h.ptr p)).2 = b + HEADER := by
  unfold Heap.carve
  split
  case isTrue hexact => exact ⟨_, _, hi.carve_exact hp hn hexact, rfl⟩
  case isFalse hmore =>
    refine ⟨F, h.ptr p + HEADER * (h.size (h.ptr p) - nunits), ?_, ?_⟩
    · refine hi.carve_split (hi.ring.next_mem hp) hp hn (by omega) rfl ?_
      simp [Heap.setSize]
    · simp [Heap.setSize]

section Loop

variable {answers : List (Option Nat)} {fuel q : Nat}

theorem mallocLoop_fit (hfit : nunits ≤ h.size p) :
    Heap.mallocLoop nunits (fuel + 1) h q p answers = some (h.carve nunits q p) := by
  unfold Heap.mallocLoop
  rw [if_pos hfit]

theorem mallocLoop_next (hfit : ¬ nunits ≤ h.size p) (hback : p ≠ h.freep) :
    Heap.mallocLoop nunits (fuel + 1) h q p answers =
      Heap.mallocLoop nunits fuel h p (h.ptr p) answers := by
  rw [Heap.mallocLoop.eq_def]
  dsimp only
  rw [if_neg hfit, if_neg hback]

theorem mallocLoop_ask (hfit : ¬ nunits ≤ h.size p) (hback : p = h.freep) :
    Heap.mallocLoop nunits (fuel + 1) h q p answers = match answers with
      | [] => none
      | none :: _ => some (h, 0)
      | some a :: answers =>
        (h.morecore fuel nunits a).bind fun h =>
          Heap.mallocLoop nunits fuel h h.freep (h.ptr h.freep) answers := by
  rw [Heap.mallocLoop.eq_def]
  exact (if_neg hfit).trans (if_pos hback)

end Loop

theorem mallocLoop_mono {r : Heap × Nat}
    (hloop : Heap.mallocLoop nunits fuel h q p answers = some r) :
    Heap.mallocLoop nunits (fuel + 1) h q p answers = some r := by
  induction fuel generalizing h q p answers with
  | zero => cases hloop
  | succ fuel ih =>
    unfold Heap.mallocLoop at hloop ⊢
    split
    case isTrue hfit =>
      rw [if_pos hfit] at hloop
      exact hloop
    case isFalse hfit =>
      rw [if_neg hfit] at hloop
      split
      case isTrue hback =>
        rw [if_pos hback] at hloop
        cases answers with
        | nil => cases hloop
        | cons answer answers =>
          cases answer with
          | none => exact hloop
          | some q =>
            obtain ⟨k, hk, hrest⟩ := bind_eq_some_iff.mp hloop
            exact bind_eq_some_iff.mpr ⟨k, morecore_mono hk, ih hrest⟩
      case isFalse hback =>
        rw [if_neg hback] at hloop
        exact ih hloop

theorem mallocLoop_walk (fuel k q : Nat)
    (hwalk : ∀ j < k, h.size (h.ptr^[j + 1] q) < nunits ∧ h.ptr^[j + 1] q ≠ h.freep) :
    Heap.mallocLoop nunits (fuel + k) h q (h.ptr q) answers =
      Heap.mallocLoop nunits fuel h (h.ptr^[k] q) (h.ptr (h.ptr^[k] q)) answers := by
  induction k generalizing q with
  | zero => rfl
  | succ k ih =>
    obtain ⟨hsmall, hback⟩ : h.size (h.ptr q) < nunits ∧ h.ptr q ≠ h.freep :=
      hwalk 0 (Nat.succ_pos k)
    rw [← Nat.add_assoc, mallocLoop_next (by omega) hback]
    exact ih (h.ptr q) fun j hj => hwalk (j + 1) (Nat.succ_lt_succ hj)

theorem HeapInv.walk_to (hi : HeapInv base h F L) (good : Nat → Prop) [DecidablePred good]
    (hgood : ∃ c ∈ F, good c) :
    ∃ k, good (h.ptr^[k + 1] h.freep) ∧
      ∀ j < k, ¬ good (h.ptr^[j + 1] h.freep) ∧ h.ptr^[j + 1] h.freep ≠ h.freep := by
  have hexists : ∃ k, good (h.ptr^[k + 1] h.freep) := by
    obtain ⟨c, hc, hgoodc⟩ := hgood
    obtain ⟨k, hk⟩ := hi.ring.reach (hi.ring.next_mem hi.freep_mem) hc
    refine ⟨k, ?_⟩
    rw [Function.iterate_succ_apply, hk]
    exact hgoodc
  refine ⟨Nat.find hexists, Nat.find_spec hexists, fun j hj => ?_⟩
  refine ⟨Nat.find_min hexists hj, fun hback => ?_⟩
  -- otherwise the walk from freep on would have met the block earlier
  have hsooner : good (h.ptr^[Nat.find hexists - (j + 1) + 1] h.freep) := by
    have hsplit : Nat.find hexists + 1 = (Nat.find hexists - (j + 1) + 1) + (j + 1) := by omega
    have hspec := Nat.find_spec hexists
    rw [hsplit, Function.iterate_add_apply, hback] at hspec
    exact hspec
  exact Nat.find_min hexists (by omega) hsooner

theorem HeapInv.loop_fits (answers : List (Option Nat)) (hi : HeapInv base h F L)
    (hn : 0 < nunits) (hfit : ∃ c ∈ F, nunits ≤ h.size c) :
    ∃ N k F' b, Given base h k F' L nunits b ∧ ∀ fuel, N < fuel →
      Heap.mallocLoop nunits fuel h h.freep (h.ptr h.freep) answers = some (k, b + HEADER) := by
  obtain ⟨k, hk, hwalk⟩ := hi.walk_to (fun c => nunits ≤ h.size c) hfit
  rw [Function.iterate_succ_apply'] at hk
  obtain ⟨F', b, hgiven, hb⟩ := hi.carve (hi.ring.iterate_mem hi.freep_mem k) hn hk
  refine ⟨k, _, F', b, hgiven, fun fuel hfuel => ?_⟩
  obtain ⟨m, rfl⟩ : ∃ m, fuel = (m + 1) + k := ⟨fuel - k - 1, by omega⟩
  have hsmall : ∀ j < k, h.size (h.ptr^[j + 1] h.freep) < nunits ∧
      h.ptr^[j + 1] h.freep ≠ h.freep := fun j hj => ⟨not_le.mp (hwalk j hj).1, (hwalk j hj).2⟩
  rw [mallocLoop_walk (m + 1) k h.freep hsmall, mallocLoop_fit hk, ← hb]

theorem HeapInv.loop_more (answers : List (Option Nat)) (hi : HeapInv base h F L)
    (hnone : ¬ ∃ c ∈ F, nunits ≤ h.size c) :
    ∃ N, ∀ m, Heap.mallocLoop nunits (m + 1 + N) h h.freep (h.ptr h.freep) answers =
      match answers with
      | [] => none
      | none :: _ => some (h, 0)
      | some q :: answers =>
        (h.morecore m nunits q).bind fun h =>
          Heap.mallocLoop nunits m h h.freep (h.ptr h.freep) answers := by
  obtain ⟨k, hk, hwalk⟩ := hi.walk_to (· = h.freep) ⟨h.freep, hi.freep_mem, rfl⟩
  have hsmall : ∀ j, h.size (h.ptr^[j] h.freep) < nunits := by
    intro j
    by_contra hfit
    exact hnone ⟨_, hi.ring.iterate_mem hi.freep_mem j, by omega⟩
  refine ⟨k, fun m => ?_⟩
  rw [mallocLoop_walk (m + 1) k h.freep fun j hj => ⟨hsmall (j + 1), (hwalk j hj).2⟩]
  rw [Function.iterate_succ_apply'] at hk
  have hfit : ¬ nunits ≤ h.size (h.ptr (h.ptr^[k] h.freep)) := by
    rw [hk]
    exact not_le.mpr (hsmall 0)
  exact mallocLoop_ask hfit hk

/-- What malloc leaves: a new block, or 0 and the heap as it was. -/
def Outcome (base : Nat) (h : Heap) (L : Finset Nat) (nunits : Nat) (r : Heap × Nat) : Prop :=
  r = (h, 0) ∨ ∃ F' b, Given base h r.1 F' L nunits b ∧ r.2 = b + HEADER

/-- **The loop of malloc returns.** -/
theorem HeapInv.loop_returns (hi : HeapInv base h F L) (hn : 0 < nunits) (hanswers : answers ≠ [])
    (hfresh : FreshAnswers base (Heap.moreUnits nunits) h.regions answers)
    (hroom : ∀ q l, answers = some q :: l → unitsOf h.regions + Heap.moreUnits nunits < 2 ^ 32) :
    ∃ N r, Outcome base h L nunits r ∧ ∀ fuel, N < fuel →
      Heap.mallocLoop nunits fuel h h.freep (h.ptr h.freep) answers = some r := by
  by_cases hfit : ∃ c ∈ F, nunits ≤ h.size c
  · obtain ⟨N, k, F', b, hgiven, hloop⟩ := hi.loop_fits answers hn hfit
    exact ⟨N, _, .inr ⟨F', b, hgiven, rfl⟩, hloop⟩
  obtain ⟨N, hloop⟩ := hi.loop_more answers hfit
  cases answers with
  | nil => exact absurd rfl hanswers
  | cons answer answers =>
    cases answer with
    | none =>
      refine ⟨N, (h, 0), .inl rfl, fun fuel hfuel => ?_⟩
      obtain ⟨m, rfl⟩ : ∃ m, fuel = m + 1 + N := ⟨fuel - N - 1, by omega⟩
      exact hloop m
    | some q =>
      -- the new block fits
      obtain ⟨N', k, F', hk, hfit', hothers, hmore⟩ := hi.morecore_returns hfresh.1 (hroom q answers rfl)
      obtain ⟨N'', k', F'', b, hgiven, hloop'⟩ := hk.loop_fits answers hn hfit'
      refine ⟨N + N' + N'' + 1, (k', b + HEADER), .inr ⟨F'', b, ?_, rfl⟩, ?_⟩
      · refine { hgiven with others := fun a ha => ?_ }
        exact (hgiven.others a ha).trans (hothers a ha)
      · intro fuel hfuel
        obtain ⟨m, rfl⟩ : ∃ m, fuel = m + 1 + N := ⟨fuel - N - 1, by omega⟩
        rw [hloop m]
        show (h.morecore m nunits q).bind _ = _
        rw [hmore m (by omega), bind_some]
        exact hloop' m (by omega)

end Xv6.Umalloc
