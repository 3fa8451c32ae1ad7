/-
  Xv6.Heap.Requests — malloc for every request size, with the sbrk of the kernel.
-/
import Xv6.Heap.Integrity

namespace Xv6.Umalloc

/-! ## §1. The size of the process. -/

/-- What morecore passes to sbrk: `nu * sizeof(Header)`, as an `int`. -/
def sbrkArg (nu : Nat) : Int := (BitVec.ofNat 32 (HEADER * nu)).toInt

/-- growproc on `p->sz`; `ok` says whether uvmalloc finds the memory, `none` is -1. -/
def growproc (sz : Nat) (n : Int) (ok : Bool) : Option Nat :=
  if 0 < n then
    if ok then some (sz + n.toNat) else none
  else if n < 0 then
    -- uvmdealloc leaves the size alone when the sum has wrapped around
    let newsz := ((sz + n) % 2 ^ 64).toNat
    some (if sz ≤ newsz then sz else newsz)
  else some sz

def sysSbrk (sz : Nat) (n : Int) (ok : Bool) : Option Nat × Nat :=
  match growproc sz n ok with
  | none => (none, sz)
  | some sz' => (some sz, sz')

theorem sysSbrk_of_pos {sz n : Nat} (hn : 0 < n) (ok : Bool) :
    sysSbrk sz n ok = if ok then (some sz, sz + n) else (none, sz) := by
  have hpos : 0 < (n : Int) := by omega
  unfold sysSbrk growproc
  rw [if_pos hpos, Int.toNat_natCast]
  cases ok <;> rfl

theorem sbrkArg_eq_iff (nu : Nat) : sbrkArg nu = (HEADER * nu : Nat) ↔ HEADER * nu < 2 ^ 31 := by
  have hlt := BitVec.toInt_lt (x := BitVec.ofNat 32 (HEADER * nu))
  constructor
  · intro heq
    unfold sbrkArg at heq
    rw [heq] at hlt
    exact_mod_cast hlt
  · intro hsmall
    unfold sbrkArg
    rw [BitVec.toInt_eq_toNat_of_lt, BitVec.toNat_ofNat, Nat.mod_eq_of_lt (by omega)]
    rw [BitVec.toNat_ofNat]
    omega

theorem units_lt_iff (nbytes : UInt32) :
    HEADER * Heap.moreUnits (Heap.unitsFor nbytes.toNat) < 2 ^ 31 ↔ nbytes.toNat ≤ 2 ^ 31 - 32 := by
  have hlt := nbytes.toNat_lt
  have hH : HEADER = 16 := rfl
  unfold Heap.moreUnits Heap.unitsFor uint
  rw [hH]
  split <;> omega

/-! ## §2. What malloc takes from sbrk. -/

theorem carve_regions (h : Heap) (nunits prevp p : Nat) :
    (h.carve nunits prevp p).1.regions = h.regions := by
  unfold Heap.carve
  split <;> rfl

theorem free_regions {h k : Heap} {fuel ap : Nat} (hfree : h.free fuel ap = some k) :
    k.regions = h.regions := by
  obtain ⟨p, _, rfl⟩ := Option.map_eq_some_iff.mp hfree
  show ((h.joinUpper (ap - HEADER) p).joinLower (ap - HEADER) p).regions = h.regions
  unfold Heap.joinLower Heap.joinUpper
  split <;> split <;> rfl

theorem mallocLoop_regions {nunits fuel : Nat} {h : Heap} {prevp p : Nat}
    {answers : List (Option Nat)} {r : Heap × Nat} (hone : answers.length ≤ 1)
    (hloop : Heap.mallocLoop nunits fuel h prevp p answers = some r) :
    r.1.regions = h.regions ∨
      ∃ q, answers = [some q] ∧ r.1.regions = (q, Heap.moreUnits nunits) :: h.regions := by
  induction fuel generalizing h prevp p answers with
  | zero => cases hloop
  | succ fuel ih =>
    unfold Heap.mallocLoop at hloop
    split at hloop
    · obtain rfl := Option.some.inj hloop
      exact .inl (carve_regions h nunits prevp p)
    · split at hloop
      · cases answers with
        | nil => cases hloop
        | cons answer answers =>
          obtain rfl : answers = [] := by
            cases answers with
            | nil => rfl
            | cons _ _ => simp at hone
          cases answer with
          | none =>
            obtain rfl := Option.some.inj hloop
            exact .inl rfl
          | some q =>
            obtain ⟨k, hmore, hloop⟩ := Option.bind_eq_some_iff.mp hloop
            -- no answer is left for the rest of the loop
            have hnone : ([] : List (Option Nat)).length ≤ 1 := Nat.zero_le 1
            rcases ih hnone hloop with hsame | ⟨_, hnil, _⟩
            · exact .inr ⟨q, rfl, hsame.trans (free_regions hmore)⟩
            · cases hnil
      · exact ih hone hloop

/-! ## §3. Sound requests. -/

structure Fits (base : Nat) (s : State) (sz nu : Nat) : Prop where
  inv : Inv base s
  pos : 0 < base
  header : base + HEADER ≤ sz
  below : ∀ r ∈ s.heap.regions, r.1 + HEADER * r.2 ≤ sz
  /-- Less than 2^36 bytes in all. -/
  room : unitsOf s.heap.regions + nu < 2 ^ 32

/-- malloc has failed and the process is not smaller, or its block lies in
memory that sbrk has added to the process. -/
def Served (base : Nat) (s : State) (sz nu nbytes : Nat) (answer : Option Nat × Nat)
    (r : Heap × Nat) : Prop :=
  r = (s.heap.start base, 0) ∧ sz ≤ answer.2 ∨
    ∃ b, r.2 = b + HEADER ∧ nbytes + HEADER ≤ r.1.len b ∧
      (∀ x, b ≤ x → x < b + r.1.len b → r.1.InRegions x) ∧
      (r.1.regions = s.heap.regions ∧ sz ≤ answer.2 ∨
        answer = (some sz, sz + HEADER * nu) ∧ r.1.regions = (sz, nu) :: s.heap.regions)

def Sound (nbytes : UInt32) : Prop :=
  let nu := Heap.moreUnits (Heap.unitsFor nbytes.toNat)
  (sbrkArg nu = (HEADER * nu : Nat) ∧ 0 < sbrkArg nu) ∧
    ∀ base s sz ok, Fits base s sz nu →
      ∃ N r, Served base s sz nu nbytes.toNat (sysSbrk sz (sbrkArg nu) ok) r ∧
        ∀ fuel, N < fuel →
          s.heap.malloc base fuel nbytes.toNat [(sysSbrk sz (sbrkArg nu) ok).1] = some r

theorem Fits.fresh {base sz nu : Nat} {s : State} (h : Fits base s sz nu) :
    Fresh base s.heap.regions sz nu :=
  ⟨Nat.lt_of_lt_of_le h.pos (Nat.le_of_add_right_le h.header), .inr h.header,
    fun r hr => .inr (h.below r hr)⟩

theorem Fits.served {base sz : Nat} {s : State} {nbytes : UInt32}
    (h : Fits base s sz (Heap.moreUnits (Heap.unitsFor nbytes.toNat)))
    (hsmall : HEADER * Heap.moreUnits (Heap.unitsFor nbytes.toNat) < 2 ^ 31) {a : Option Nat × Nat}
    (ha : a = (some sz, sz + HEADER * Heap.moreUnits (Heap.unitsFor nbytes.toNat)) ∨
      a = (none, sz)) :
    ∃ N r, Served base s sz (Heap.moreUnits (Heap.unitsFor nbytes.toNat)) nbytes.toNat a r ∧
      ∀ fuel, N < fuel → s.heap.malloc base fuel nbytes.toNat [a.1] = some r := by
  have hgrown : sz ≤ a.2 := by
    rcases ha with rfl | rfl
    · exact Nat.le_add_right ..
    · exact le_rfl
  have hok : SbrkOk base s (.malloc nbytes [a.1]) := by
    refine ⟨hsmall, List.cons_ne_nil _ _, ?_⟩
    rcases ha with rfl | rfl
    · exact ⟨h.fresh, trivial⟩
    · trivial
  have hroom : Room s (.malloc nbytes [a.1]) := by
    rcases ha with rfl | rfl
    · exact h.room
    · trivial
  obtain ⟨F, _, _, hstart⟩ := h.inv.started h.pos
  obtain ⟨N, r, hout, hreturns⟩ := h.inv.malloc_returns h.pos hok hroom
  refine ⟨N, r, ?_, hreturns⟩
  rcases hout with rfl | ⟨F', b, hgiven, hb⟩
  · exact .inl ⟨rfl, hgrown⟩
  · have hlen : r.1.len b = HEADER * Heap.unitsFor nbytes.toNat := by
      rw [← hgiven.size]
      rfl
    have hmem : b ∈ F' ∪ insert b s.live := Finset.mem_union_right _ (Finset.mem_insert_self _ _)
    refine .inr ⟨b, hb, ?_, fun x hx hlt => ?_, ?_⟩
    · rw [hlen]
      exact unitsFor_enough nbytes
    · exact (hgiven.inv.tiles.cover x).mpr ⟨b, hmem, hx, hlt⟩
    · have hcall := hreturns (N + 1) (Nat.lt_succ_self N)
      have hone : [a.1].length ≤ 1 := le_rfl
      rcases mallocLoop_regions hone hcall with hsame | ⟨q, hq, hmore⟩
      · exact .inl ⟨hsame.trans hstart, hgrown⟩
      · rcases ha with rfl | rfl
        · obtain rfl : sz = q := by simpa using hq
          exact .inr ⟨rfl, by rw [hmore, hstart]⟩
        · simp at hq

/-- **malloc is sound exactly for the requests up to 2^31 - 32 bytes.** -/
theorem malloc_sound_iff (nbytes : UInt32) : Sound nbytes ↔ nbytes.toNat ≤ 2 ^ 31 - 32 := by
  rw [← units_lt_iff]
  constructor
  · intro hsound
    exact (sbrkArg_eq_iff _).mp hsound.1.1
  · intro hsmall
    have harg := (sbrkArg_eq_iff _).mpr hsmall
    have hunits := (moreUnits_ge (Heap.unitsFor nbytes.toNat)).2
    have hpos : 0 < HEADER * Heap.moreUnits (Heap.unitsFor nbytes.toNat) :=
      Nat.mul_pos (by decide) (by omega)
    refine ⟨⟨harg, ?_⟩, fun base s sz ok hfits => hfits.served hsmall ?_⟩
    · rw [harg]
      exact_mod_cast hpos
    · rw [harg, sysSbrk_of_pos hpos]
      cases ok
      · exact .inr rfl
      · exact .inl rfl

/-- A process of 4096 bytes asks for 2^32 - 16: sbrk(0) succeeds, and the block lies
behind the end of the process.  For 2^32 - 64, sbrk takes 48 bytes away. -/
theorem malloc_beyond_process :
    sysSbrk 4096 (sbrkArg (Heap.moreUnits (Heap.unitsFor 4294967280))) true = (some 4096, 4096) ∧
      (init.heap.malloc 16 3 4294967280 [some 4096]).map (fun r => (r.2, r.1.len 4096)) =
        some (4096 + HEADER, 2 ^ 32) ∧
      sysSbrk 4096 (sbrkArg (Heap.moreUnits (Heap.unitsFor 4294967232))) true =
        (some 4096, 4048) := by
  decide +kernel

end Xv6.Umalloc
