/-
  Xv6.Heap.Blocks — free and malloc on a well-formed heap.

  `F` is the set of the blocks in the free list and `L` that of the program's blocks.
  Together they are cut out of the memory that sbrk has returned (`Tiles`).
-/
import Xv6.Heap.Umalloc
import Xv6.Lib.SortedRing
import Xv6.Lib.Tiling

namespace Xv6.Umalloc

open Lib Finset

/-! ## §1. The well-formed heap. -/

def Heap.InRegions (h : Heap) (x : Nat) : Prop :=
  ∃ r ∈ h.regions, r.1 ≤ x ∧ x < r.1 + HEADER * r.2

structure HeapInv (base : Nat) (h : Heap) (F L : Finset Nat) : Prop where
  ring : IsRing F h.ptr
  tiles : Tiles (F ∪ L) h.len h.InRegions
  disjoint : Disjoint F L
  base_mem : base ∈ F
  base_size : h.size base = 0
  freep_mem : h.freep ∈ F
  pos : ∀ a ∈ F ∪ L, a ≠ base → 0 < h.size a
  nonzero : ∀ a ∈ F ∪ L, 0 < a
  gaps : ∀ a ∈ F, ∀ b ∈ F, a < b → a + h.len a ≠ b
  header : ∀ x, base ≤ x → x < base + HEADER → ¬ h.InRegions x
  ends : ∀ r ∈ h.regions, r.1 + HEADER * r.2 ≠ base
  total : ∑ a ∈ F ∪ L, h.size a = unitsOf h.regions
  bound : unitsOf h.regions < 2 ^ 32

section Blocks

variable {base : Nat} {h : Heap} {F L : Finset Nat} {a b p bp : Nat}

section

variable (hi : HeapInv base h F L)

include hi

theorem HeapInv.notMem_live (ha : a ∈ F) : a ∉ L :=
  disjoint_left.mp hi.disjoint ha

theorem HeapInv.notMem_free (ha : a ∈ L) : a ∉ F :=
  disjoint_right.mp hi.disjoint ha

theorem HeapInv.len_pos (ha : a ∈ F ∪ L) (hne : a ≠ base) : 0 < h.len a :=
  Nat.mul_pos (by decide) (hi.pos a ha hne)

theorem HeapInv.end_ne_base (ha : a ∈ F ∪ L) (hne : a ≠ base) : a + h.len a ≠ base := by
  intro hend
  have hlen := hi.len_pos ha hne
  -- the last byte of the block is in a region, which then contains base
  obtain ⟨r, hr, hlow, hhigh⟩ := (hi.tiles.cover (base - 1)).mpr ⟨a, ha, by omega, by omega⟩
  have hne' := hi.ends r hr
  exact hi.header base le_rfl (Nat.lt_add_of_pos_right (by decide)) ⟨r, hr, by omega, by omega⟩

theorem HeapInv.uint_add (ha : a ∈ F ∪ L) (hb : b ∈ F ∪ L)
    (hne : a ≠ b) : uint (h.size a + h.size b) = h.size a + h.size b := by
  have hle : ∑ x ∈ {a, b}, h.size x ≤ ∑ x ∈ F ∪ L, h.size x := by
    apply sum_le_sum_of_subset
    intro x hx
    rcases mem_insert.mp hx with rfl | hx
    · exact ha
    · rw [mem_singleton.mp hx]
      exact hb
  have hbound := hi.bound
  rw [sum_pair hne, hi.total] at hle
  exact Nat.mod_eq_of_lt (by omega)

theorem HeapInv.next_ne_self (hp : p ∈ F) (hne : p ≠ base) : h.ptr p ≠ p :=
  fun hself => hne (hi.ring.eq_of_next_self hp hself hi.base_mem).symm

end

theorem HeapInv.congr {h' : Heap} (hi : HeapInv base h F L)
    (hptr : ∀ a ∈ F, h'.ptr a = h.ptr a) (hsize : ∀ a ∈ F ∪ L, h'.size a = h.size a)
    (hfreep : h'.freep ∈ F) (hregions : h'.regions = h.regions) : HeapInv base h' F L := by
  have hin : h'.InRegions = h.InRegions := by
    unfold Heap.InRegions
    rw [hregions]
  have hlen : ∀ a ∈ F ∪ L, h'.len a = h.len a := by
    intro a ha
    unfold Heap.len
    rw [hsize a ha]
  constructor
  · exact hi.ring.congr hptr
  · rw [hin]
    exact hi.tiles.congr hlen
  · exact hi.disjoint
  · exact hi.base_mem
  · rw [hsize base (mem_union_left L hi.base_mem)]
    exact hi.base_size
  · exact hfreep
  · intro a ha hne
    rw [hsize a ha]
    exact hi.pos a ha hne
  · exact hi.nonzero
  · intro a ha b hb hab
    rw [hlen a (mem_union_left L ha)]
    exact hi.gaps a ha b hb hab
  · rw [hin]
    exact hi.header
  · rw [hregions]
    exact hi.ends
  · rw [hregions, ← hi.total]
    exact sum_congr rfl hsize
  · rw [hregions]
    exact hi.bound

/-! ## §2. free. -/

/-- `bp` has been joined to the block behind it, and the pointer past `bp` is in place. -/
def Heap.joinedUpper (h : Heap) (bp p : Nat) : Heap :=
  { (h.joinUpper bp p).setPtr p ((h.joinUpper bp p).ptr bp) with freep := p }

/-- In `k`, `bp` is joined to the block behind it; `h` is the heap before. -/
structure Joined (base : Nat) (h k : Heap) (F L : Finset Nat) (bp p : Nat) : Prop where
  inv : HeapInv base k F L
  mem : p ∈ F
  gap : Gap p bp (k.ptr p)
  loose : ∀ b ∈ F, bp < b → bp + k.len bp ≠ b
  ptr : k.ptr bp = k.ptr p
  grows : h.size bp ≤ k.size bp
  others : ∀ a ∈ L, a ≠ bp → k.size a = h.size a

section

variable (hi : HeapInv base h F L) (hbp : bp ∈ L) (hp : p ∈ F) (hgap : Gap p bp (h.ptr p))

include hi hbp hp hgap

theorem HeapInv.absorb (hend : bp + h.len bp = h.ptr p) :
    Joined base h (h.joinedUpper bp p) (F.erase (h.ptr p)) L bp p := by
  have hnF := hi.ring.next_mem hp
  have hbpF := hi.notMem_free hbp
  have hbp' : bp ∈ F ∪ L := mem_union_right F hbp
  have hn' : h.ptr p ∈ F ∪ L := mem_union_left L hnF
  have hbase : bp ≠ base := fun he => hbpF (he ▸ hi.base_mem)
  have hpos := hi.len_pos hbp' hbase
  have hnbase : h.ptr p ≠ base := hend ▸ hi.end_ne_base hbp' hbase
  have hpbp : p ≠ bp := fun he => hbpF (he ▸ hp)
  have hbpn : bp ≠ h.ptr p := by omega
  have hne : h.ptr p ≠ p := by
    intro he
    exact hi.next_ne_self hp (fun hb => hnbase (he.trans hb)) he
  -- the fields of the new heap
  have hk : h.joinUpper bp p =
      (h.setSize bp (h.size bp + h.size (h.ptr p))).setPtr bp (h.ptr (h.ptr p)) := by
    have hend' : bp + HEADER * h.size bp = h.ptr p := hend
    unfold Heap.joinUpper
    rw [if_pos hend', hi.uint_add hbp' hn' hbpn]
  have hptr_p : (h.joinedUpper bp p).ptr p = h.ptr (h.ptr p) := by
    simp [Heap.joinedUpper, hk, Heap.setPtr, Heap.setSize]
  have hptr_bp : (h.joinedUpper bp p).ptr bp = h.ptr (h.ptr p) := by
    simp [Heap.joinedUpper, hk, Heap.setPtr, Heap.setSize, put_of_ne hpbp.symm]
  have hptr : ∀ x, x ≠ p → x ≠ bp → (h.joinedUpper bp p).ptr x = h.ptr x := by
    intro x hxp hxbp
    simp [Heap.joinedUpper, hk, Heap.setPtr, Heap.setSize, put_of_ne hxp, put_of_ne hxbp]
  have hsize_bp : (h.joinedUpper bp p).size bp = h.size bp + h.size (h.ptr p) := by
    simp [Heap.joinedUpper, hk, Heap.setPtr, Heap.setSize]
  have hsize : ∀ x, x ≠ bp → (h.joinedUpper bp p).size x = h.size x := by
    intro x hx
    simp [Heap.joinedUpper, hk, Heap.setPtr, Heap.setSize, put_of_ne hx]
  have hregions : (h.joinedUpper bp p).regions = h.regions := by
    simp [Heap.joinedUpper, hk, Heap.setPtr, Heap.setSize]
  have hin : (h.joinedUpper bp p).InRegions = h.InRegions := by
    unfold Heap.InRegions
    rw [hregions]
  have hlen_bp : (h.joinedUpper bp p).len bp = h.len bp + h.len (h.ptr p) := by
    unfold Heap.len
    rw [hsize_bp, Nat.mul_add]
  have hlen : ∀ x, x ≠ bp → (h.joinedUpper bp p).len x = h.len x := by
    intro x hx
    unfold Heap.len
    rw [hsize x hx]
  have hunion : F.erase (h.ptr p) ∪ L = (F ∪ L).erase (h.ptr p) := by
    rw [erase_union_distrib, erase_eq_of_notMem (hi.notMem_live hnF)]
  have hsub : ∀ a ∈ F.erase (h.ptr p) ∪ L, a ∈ F ∪ L := by
    intro a ha
    rw [hunion] at ha
    exact mem_of_mem_erase ha
  refine ⟨?_, mem_erase.mpr ⟨hne.symm, hp⟩, ?_, ?_, hptr_bp.trans hptr_p.symm, ?_, ?_⟩
  · constructor
    · apply hi.ring.removeAfter hp hne hptr_p
      intro x hx hxp _
      exact hptr x hxp fun he => hbpF (he ▸ hx)
    · rw [hunion, hin]
      exact hi.tiles.merge hbp' hn' hbpn hend hlen_bp fun x _ hxbp _ => hlen x hxbp
    · exact hi.disjoint.mono_left (erase_subset _ _)
    · exact mem_erase.mpr ⟨hnbase.symm, hi.base_mem⟩
    · rw [hsize base hbase.symm]
      exact hi.base_size
    · exact mem_erase.mpr ⟨hne.symm, hp⟩
    · intro a ha hab
      have hpos' := hi.pos a (hsub a ha) hab
      by_cases habp : a = bp
      · rw [habp, hsize_bp]
        rw [habp] at hpos'
        omega
      · rw [hsize a habp]
        exact hpos'
    · exact fun a ha => hi.nonzero a (hsub a ha)
    · intro a ha b hb hab
      have haF := mem_of_mem_erase ha
      rw [hlen a fun he => hbpF (he ▸ haF)]
      exact hi.gaps a haF b (mem_of_mem_erase hb) hab
    · rw [hin]
      exact hi.header
    · rw [hregions]
      exact hi.ends
    · rw [hunion, hregions, ← hi.total]
      exact Tiles.sum_merge hbp' hn' hbpn hsize_bp fun x _ hxbp _ => hsize x hxbp
    · rw [hregions]
      exact hi.bound
  · rw [hptr_p]
    exact hi.ring.gap_removeAfter hp hgap
  · intro b hb hlt
    obtain ⟨hbn, hbF⟩ := mem_erase.mp hb
    obtain ⟨_, hle⟩ := hi.ring.le_of_gap hp hgap hbF hlt
    have hloose := hi.gaps (h.ptr p) hnF b hbF (by omega)
    rw [hlen_bp]
    omega
  · rw [hsize_bp]
    omega
  · exact fun a _ ha => hsize a ha

theorem HeapInv.detached (hend : bp + h.len bp ≠ h.ptr p) :
    Joined base h (h.joinedUpper bp p) F L bp p := by
  have hbpF := hi.notMem_free hbp
  have hpbp : p ≠ bp := fun he => hbpF (he ▸ hp)
  have hk : h.joinUpper bp p = h.setPtr bp (h.ptr p) := if_neg hend
  have hptr_p : (h.joinedUpper bp p).ptr p = h.ptr p := by
    simp [Heap.joinedUpper, hk, Heap.setPtr]
  have hptr : ∀ x ∈ F, (h.joinedUpper bp p).ptr x = h.ptr x := by
    intro x hx
    by_cases hxp : x = p
    · rw [hxp, hptr_p]
    · have hxbp : x ≠ bp := fun he => hbpF (he ▸ hx)
      simp [Heap.joinedUpper, hk, Heap.setPtr, put_of_ne hxp, put_of_ne hxbp]
  have hsize : (h.joinedUpper bp p).size = h.size := by
    simp [Heap.joinedUpper, hk, Heap.setPtr]
  refine ⟨?_, hp, ?_, ?_, ?_, ?_, ?_⟩
  · apply hi.congr hptr
    · exact fun a _ => congrFun hsize a
    · exact hp
    · simp [Heap.joinedUpper, hk, Heap.setPtr]
  · rw [hptr_p]
    exact hgap
  · intro b hb hlt
    -- only the next free block could start there
    obtain ⟨hbn, hle⟩ := hi.ring.le_of_gap hp hgap hb hlt
    have hapart := hi.tiles.apart bp (mem_union_right F hbp) (h.ptr p)
      (mem_union_left L (hi.ring.next_mem hp)) hbn
    unfold Heap.len at hapart hend ⊢
    rw [hsize]
    omega
  · rw [hptr_p]
    simp [Heap.joinedUpper, hk, Heap.setPtr, put_of_ne hpbp.symm]
  · rw [hsize]
  · intro a _ _
    rw [hsize]

end

/-- After free: `bp` has changed sides. -/
structure Freed (base : Nat) (h k : Heap) (F L : Finset Nat) (bp : Nat) : Prop where
  inv : HeapInv base k F (L.erase bp)
  /-- A free block has at least the size of the freed one. -/
  fits : ∃ c ∈ F, h.size bp ≤ k.size c
  others : ∀ a ∈ L, a ≠ bp → k.size a = h.size a

theorem Joined.absorb {k : Heap} (hj : Joined base h k F L bp p) (hbp : bp ∈ L)
    (hfreep : k.freep = p) (hend : p + k.len p = bp) :
    Freed base h (k.setSize p (uint (k.size p + k.size bp))) F L bp := by
  have hi := hj.inv
  have hbpF := hi.notMem_free hbp
  have hp' : p ∈ F ∪ L := mem_union_left L hj.mem
  have hbp' : bp ∈ F ∪ L := mem_union_right F hbp
  have hpbp : p ≠ bp := fun he => hbpF (he ▸ hj.mem)
  have hpbase : p ≠ base := by
    intro he
    apply hpbp
    rw [← hend, he]
    simp [Heap.len, hi.base_size]
  rw [hi.uint_add hp' hbp' hpbp]
  have hsize_p : (k.setSize p (k.size p + k.size bp)).size p = k.size p + k.size bp := put_self ..
  have hsize : ∀ x, x ≠ p → (k.setSize p (k.size p + k.size bp)).size x = k.size x :=
    fun x hx => put_of_ne hx
  have hlen_p : (k.setSize p (k.size p + k.size bp)).len p = k.len p + k.len bp := by
    unfold Heap.len
    rw [hsize_p, Nat.mul_add]
  have hlen : ∀ x, x ≠ p → (k.setSize p (k.size p + k.size bp)).len x = k.len x := by
    intro x hx
    unfold Heap.len
    rw [hsize x hx]
  have hunion : F ∪ L.erase bp = (F ∪ L).erase bp := by
    rw [erase_union_distrib, erase_eq_of_notMem hbpF]
  have hsub : ∀ a ∈ F ∪ L.erase bp, a ∈ F ∪ L := by
    intro a ha
    rw [hunion] at ha
    exact mem_of_mem_erase ha
  refine ⟨?_, ⟨p, hj.mem, ?_⟩, ?_⟩
  · constructor
    · exact hi.ring
    · rw [hunion]
      exact hi.tiles.merge hp' hbp' hpbp hend hlen_p fun x _ hx _ => hlen x hx
    · exact hi.disjoint.mono_right (erase_subset _ _)
    · exact hi.base_mem
    · rw [hsize base hpbase.symm]
      exact hi.base_size
    · exact hfreep ▸ hj.mem
    · intro a ha hab
      have hpos := hi.pos a (hsub a ha) hab
      by_cases hap : a = p
      · rw [hap, hsize_p]
        rw [hap] at hpos
        omega
      · rw [hsize a hap]
        exact hpos
    · exact fun a ha => hi.nonzero a (hsub a ha)
    · intro a ha b hb hab
      have hgap := hi.gaps a ha b hb hab
      by_cases hap : a = p
      · -- p now ends where bp ended
        rw [hap] at hab hgap ⊢
        rw [hlen_p]
        have hapart := hi.tiles.apart p hp' b (mem_union_left L hb) hab
        have hloose := hj.loose b hb (by omega)
        omega
      · rw [hlen a hap]
        exact hgap
    · exact hi.header
    · exact hi.ends
    · rw [hunion]
      show _ = unitsOf k.regions
      rw [← hi.total]
      exact Tiles.sum_merge hp' hbp' hpbp hsize_p fun x _ hx _ => hsize x hx
    · exact hi.bound
  · rw [hsize_p]
    have hgrows := hj.grows
    omega
  · intro a ha hab
    rw [hsize a fun he => hi.notMem_free ha (he ▸ hj.mem)]
    exact hj.others a ha hab

theorem Joined.link {k : Heap} (hj : Joined base h k F L bp p) (hbp : bp ∈ L)
    (hfreep : k.freep = p) (hend : p + k.len p ≠ bp) :
    Freed base h (k.setPtr p bp) (insert bp F) L bp := by
  have hi := hj.inv
  have hbpF := hi.notMem_free hbp
  have hpbp : p ≠ bp := fun he => hbpF (he ▸ hj.mem)
  have hunion : insert bp F ∪ L.erase bp = F ∪ L := by
    rw [insert_union, ← union_insert, insert_erase hbp]
  refine ⟨?_, ⟨bp, mem_insert_self bp F, hj.grows⟩, hj.others⟩
  constructor
  · refine hi.ring.insertAfter hj.mem hbpF hj.gap ?_ (put_self ..) fun a _ hap => put_of_ne hap
    exact (put_of_ne hpbp.symm).trans hj.ptr
  · rw [hunion]
    exact hi.tiles
  · refine disjoint_insert_left.mpr ⟨notMem_erase bp L, ?_⟩
    exact hi.disjoint.mono_right (erase_subset _ _)
  · exact mem_insert_of_mem hi.base_mem
  · exact hi.base_size
  · show k.freep ∈ _
    rw [hfreep]
    exact mem_insert_of_mem hj.mem
  · rw [hunion]
    exact hi.pos
  · rw [hunion]
    exact hi.nonzero
  · intro a ha b hb hab
    show a + k.len a ≠ b
    rcases mem_insert.mp ha with rfl | haF
    · rcases mem_insert.mp hb with rfl | hbF
      · exact absurd hab (lt_irrefl _)
      · exact hj.loose b hbF hab
    · rcases mem_insert.mp hb with rfl | hbF
      · -- below bp there are only p and blocks that end at or before p
        obtain ⟨hpb, hle⟩ := hi.ring.ge_of_gap hj.mem hj.gap haF hab
        by_cases hap : a = p
        · rw [hap]
          exact hend
        · have hapart := hi.tiles.apart a (mem_union_left L haF) p
            (mem_union_left L hj.mem) (by omega)
          omega
      · exact hi.gaps a haF b hbF hab
  · exact hi.header
  · exact hi.ends
  · rw [hunion]
    exact hi.total
  · exact hi.bound

/-- **free puts a block into its place in the list.** -/
theorem HeapInv.insertAt (hi : HeapInv base h F L) (hbp : bp ∈ L) (hp : p ∈ F)
    (hgap : Gap p bp (h.ptr p)) : ∃ F', Freed base h (h.insertAt bp p) F' L bp := by
  have hjoined : ∃ F', Joined base h (h.joinedUpper bp p) F' L bp p := by
    by_cases hend : bp + h.len bp = h.ptr p
    · exact ⟨_, hi.absorb hbp hp hgap hend⟩
    · exact ⟨F, hi.detached hbp hp hgap hend⟩
  obtain ⟨F', hj⟩ := hjoined
  by_cases hend : p + (h.joinedUpper bp p).len p = bp
  · refine ⟨F', ?_⟩
    have heq : h.insertAt bp p = (h.joinedUpper bp p).setSize p
        (uint ((h.joinedUpper bp p).size p + (h.joinedUpper bp p).size bp)) := by
      have hlower : (h.joinUpper bp p).joinLower bp p =
          ((h.joinUpper bp p).setSize p _).setPtr p _ := if_pos hend
      unfold Heap.insertAt
      rw [hlower]
      rfl
    rw [heq]
    exact hj.absorb hbp rfl hend
  · refine ⟨insert bp F', ?_⟩
    have heq : h.insertAt bp p = (h.joinedUpper bp p).setPtr p bp := by
      have hlower : (h.joinUpper bp p).joinLower bp p = (h.joinUpper bp p).setPtr p bp :=
        if_neg hend
      unfold Heap.insertAt Heap.joinedUpper
      rw [hlower]
      simp [Heap.setPtr, put_put]
    rw [heq]
    exact hj.link hbp rfl hend

end Blocks

end Xv6.Umalloc
