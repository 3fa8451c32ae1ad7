/-
  Xv6.Heap.Umalloc — the allocator of user programs, as in umalloc.c.

  A pointer is a number.  Every call of malloc comes with the answers of sbrk.  The loops are
  given a number of turns; `none` is a loop that has not come to its end.
-/
import Xv6.Lib.Bytes
import Xv6.Lib.Run

namespace Xv6.Umalloc

open Lib

def HEADER : Nat := 16

/-- What fits in a `uint`. -/
def uint (n : Nat) : Nat := n % 2 ^ 32

structure Heap where
  ptr : Nat → Nat
  size : Nat → Nat
  /-- 0 before the first call of malloc. -/
  freep : Nat
  /-- Ghost: start and units of the memory that sbrk has returned. -/
  regions : List (Nat × Nat)

namespace Heap

def setPtr (h : Heap) (a v : Nat) : Heap := { h with ptr := put h.ptr a v }

def setSize (h : Heap) (a : Nat) (n : Nat) : Heap := { h with size := put h.size a n }

def len (h : Heap) (a : Nat) : Nat := HEADER * h.size a

/-! ## §1. free. -/

def findGap (h : Heap) (bp : Nat) : Nat → Nat → Option Nat
  | 0, _ => none
  | fuel + 1, p =>
    if p < bp ∧ bp < h.ptr p then some p
    else if h.ptr p ≤ p ∧ (p < bp ∨ bp < h.ptr p) then some p
    else findGap h bp fuel (h.ptr p)

/-- `bp` is joined to the block behind it, or points to it. -/
def joinUpper (h : Heap) (bp p : Nat) : Heap :=
  if bp + HEADER * h.size bp = h.ptr p then
    (h.setSize bp (uint (h.size bp + h.size (h.ptr p)))).setPtr bp (h.ptr (h.ptr p))
  else h.setPtr bp (h.ptr p)

/-- `bp` is joined to the block before it, or that one points to it. -/
def joinLower (h : Heap) (bp p : Nat) : Heap :=
  if p + HEADER * h.size p = bp then
    (h.setSize p (uint (h.size p + h.size bp))).setPtr p (h.ptr bp)
  else h.setPtr p bp

def insertAt (h : Heap) (bp p : Nat) : Heap :=
  { (h.joinUpper bp p).joinLower bp p with freep := p }

def free (h : Heap) (fuel : Nat) (ap : Nat) : Option Heap :=
  let bp := ap - HEADER
  (h.findGap bp fuel h.freep).map fun p => h.insertAt bp p

/-! ## §2. malloc. -/

def moreUnits (nu : Nat) : Nat := if nu < 4096 then 4096 else nu

/-- morecore, when sbrk has returned `p`. -/
def morecore (h : Heap) (fuel : Nat) (nu : Nat) (p : Nat) : Option Heap :=
  let h := h.setSize p (moreUnits nu)
  { h with regions := (p, moreUnits nu) :: h.regions }.free fuel (p + HEADER)

def carve (h : Heap) (nunits : Nat) (prevp p : Nat) : Heap × Nat :=
  if h.size p = nunits then ({ h.setPtr prevp (h.ptr p) with freep := prevp }, p + HEADER)
  else
    let h := h.setSize p (h.size p - nunits)
    let p := p + HEADER * h.size p
    ({ h.setSize p nunits with freep := prevp }, p + HEADER)

def mallocLoop (nunits : Nat) : Nat → Heap → Nat → Nat → List (Option Nat) → Option (Heap × Nat)
  | 0, _, _, _, _ => none
  | fuel + 1, h, prevp, p, answers =>
    if nunits ≤ h.size p then some (h.carve nunits prevp p)
    else if p = h.freep then
      match answers with
      | [] => none
      | none :: _ => some (h, 0)
      | some q :: answers =>
        (h.morecore fuel nunits q).bind fun h =>
          mallocLoop nunits fuel h h.freep (h.ptr h.freep) answers
    else mallocLoop nunits fuel h p (h.ptr p) answers

/-- `nunits` of malloc: the header and enough units for `nbytes`. -/
def unitsFor (nbytes : Nat) : Nat := uint ((nbytes + HEADER - 1) / HEADER + 1)

/-- The list is only the header `base` at first. -/
def start (h : Heap) (base : Nat) : Heap :=
  if h.freep = 0 then { (h.setPtr base base).setSize base 0 with freep := base } else h

def malloc (h : Heap) (base : Nat) (fuel : Nat) (nbytes : Nat) (answers : List (Option Nat)) :
    Option (Heap × Nat) :=
  let h := h.start base
  mallocLoop (unitsFor nbytes) fuel h h.freep (h.ptr h.freep) answers

end Heap

/-! ## §3. Programs. -/

/-- The heap with, as ghosts, the headers of the program's blocks and the bytes asked for. -/
structure State where
  heap : Heap
  live : Finset Nat
  asked : Nat → Nat

def init : State :=
  { heap := { ptr := fun _ => 0, size := fun _ => 0, freep := 0, regions := [] }
    live := ∅
    asked := fun _ => 0 }

inductive Act where
  | malloc (nbytes : UInt32) (answers : List (Option Nat))
  | free (ap : Nat)
  /-- The program writes what it likes into its blocks. -/
  | store (ptr : Nat → Nat) (size : Nat → Nat)

/-- A header at `x` would overlap bytes that the program may write. -/
def State.InUse (s : State) (x : Nat) : Prop :=
  ∃ a ∈ s.live, a < x ∧ x < a + HEADER + s.asked a

instance (s : State) (x : Nat) : Decidable (s.InUse x) :=
  inferInstanceAs (Decidable (∃ a ∈ s.live, _))

def State.give (s : State) (nbytes : Nat) (r : Heap × Nat) : State :=
  if r.2 = 0 then { s with heap := r.1 }
  else
    { heap := r.1
      live := insert (r.2 - HEADER) s.live
      asked := put s.asked (r.2 - HEADER) nbytes }

/-- Blocks are freed only while the program has them. -/
def step (base : Nat) (fuel : Nat) (s : State) : Act → Option State
  | .malloc nbytes answers =>
    (s.heap.malloc base fuel nbytes.toNat answers).map fun r => s.give nbytes.toNat r
  | .free ap =>
    if HEADER ≤ ap ∧ ap - HEADER ∈ s.live then
      (s.heap.free fuel ap).map fun h =>
        { s with heap := h, live := s.live.erase (ap - HEADER) }
    else none
  | .store ptr size =>
    some
      { s with
        heap :=
          { s.heap with
            ptr := fun x => if s.InUse x then ptr x else s.heap.ptr x
            size := fun x => if s.InUse x then size x else s.heap.size x } }

/-- The memory at `p` is apart from what sbrk has returned before, and not behind `base`. -/
def Fresh (base : Nat) (regions : List (Nat × Nat)) (p : Nat) (nu : Nat) : Prop :=
  0 < p ∧ (p + HEADER * nu < base ∨ base + HEADER ≤ p) ∧
    ∀ r ∈ regions, p + HEADER * nu ≤ r.1 ∨ r.1 + HEADER * r.2 ≤ p

def FreshAnswers (base : Nat) (nu : Nat) : List (Nat × Nat) → List (Option Nat) → Prop
  | _, [] => True
  | regions, none :: answers => FreshAnswers base nu regions answers
  | regions, some p :: answers =>
    Fresh base regions p nu ∧ FreshAnswers base nu ((p, nu) :: regions) answers

def unitsOf (regions : List (Nat × Nat)) : Nat := (regions.map Prod.snd).sum

/-- sbrk answers with new memory or -1, and what morecore passes to it fits in
an `int`. -/
def SbrkOk (base : Nat) (s : State) : Act → Prop
  | .malloc nbytes answers =>
    let nu := Heap.moreUnits (Heap.unitsFor nbytes.toNat)
    HEADER * nu < 2 ^ 31 ∧ answers ≠ [] ∧ FreshAnswers base nu s.heap.regions answers
  | _ => True

/-- sbrk returns no more memory when 2^36 bytes would be reached. -/
def Room (s : State) : Act → Prop
  | .malloc nbytes (some _ :: _) =>
    unitsOf s.heap.regions + Heap.moreUnits (Heap.unitsFor nbytes.toNat) < 2 ^ 32
  | _ => True

def RunWith (base : Nat) (ok : State → Act → Prop) : State → Prop :=
  Reachable (· = init) fun s s' => ∃ fuel a, step base fuel s a = some s' ∧ ok s a

end Xv6.Umalloc
