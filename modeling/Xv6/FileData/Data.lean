/-
  Xv6.FileData.Data — the contents of one inode as `writei` changes them.

  Of the block map only the number of data blocks is kept, and whether there is an indirect
  block: files have no holes.
-/
import Xv6.Fs.Inode

namespace Xv6.FileData

open Lib Fs

/-! ## §1. Blocks. -/

structure Data where
  bytes : Bytes
  size : Nat
  /-- The data blocks 0, …, `mapped` - 1 have an address. -/
  mapped : Nat
  indirect : Bool
  free : Nat

def obtain (d : Data) (bn : Nat) : Data × Bool :=
  if d.free = 0 then (d, false) else ({ d with mapped := bn + 1, free := d.free - 1 }, true)

def bmap (d : Data) (bn : Nat) : Data × Bool :=
  if bn < d.mapped then (d, true)
  else if bn < NDIRECT ∨ d.indirect = true then obtain d bn
  else if d.free = 0 then (d, false)
  else obtain { d with indirect := true, free := d.free - 1 } bn

/-- With two free blocks `bmap` cannot fail, and uses at most two. -/
theorem bmap_spec (d : Data) (bn : Nat) (hfree : 2 ≤ d.free) :
    ∃ d', bmap d bn = (d', true) ∧ d'.bytes = d.bytes ∧ d'.size = d.size ∧
      d.free ≤ d'.free + 2 := by
  unfold bmap obtain
  by_cases hin : bn < d.mapped
  · rw [if_pos hin]
    exact ⟨d, rfl, rfl, rfl, by omega⟩
  · rw [if_neg hin]
    by_cases hdirect : bn < NDIRECT ∨ d.indirect = true
    · rw [if_pos hdirect, if_neg (by omega)]
      exact ⟨_, rfl, rfl, rfl, by dsimp only; omega⟩
    · rw [if_neg hdirect, if_neg (by omega), if_neg (by dsimp only; omega)]
      exact ⟨_, rfl, rfl, rfl, by dsimp only; omega⟩

/-! ## §2. One turn of the loop. -/

def turnLength (off tot n : Nat) : Nat := min (n - tot) (BSIZE - off % BSIZE)

theorem turnLength_pos (off : Nat) {tot n : Nat} (h : tot < n) : 0 < turnLength off tot n := by
  have hmod : off % BSIZE < BSIZE := Nat.mod_lt _ (by decide)
  unfold turnLength
  omega

theorem turnLength_le (off tot n : Nat) : turnLength off tot n ≤ n - tot := Nat.min_le_left _ _

/-- One turn of the loop of writei: how many more bytes are copied, or `none` if the loop is left.
-/
def turn (d : Data) (src : Nat → Option UInt8) (off tot n : Nat) : Data × Option Nat :=
  match bmap d (off / BSIZE) with
  | (d, false) => (d, none)
  | (d, true) =>
    let m := turnLength off tot n
    let k := readable src tot m
    let d := { d with bytes := overlay d.bytes off k fun i => (src (tot + i)).getD 0 }
    if k = m then (d, some m) else (d, none)

def Readable (src : Nat → Option UInt8) (n : Nat) : Prop := ∀ i < n, (src i).isSome = true

theorem readable_eq (src : Nat → Option UInt8) (start m : Nat)
    (h : ∀ i < m, (src (start + i)).isSome = true) : readable src start m = m := by
  induction m generalizing start with
  | zero => rfl
  | succ m ih =>
    have h0 := h 0 (by omega)
    rw [Nat.add_zero] at h0
    rw [readable, if_pos h0, ih (start + 1)]
    intro i hi
    have hi' := h (i + 1) (by omega)
    rwa [show start + 1 + i = start + (i + 1) by omega]

def bytesAt (src : Nat → Option UInt8) : Bytes := fun i => (src i).getD 0

theorem turn_spec (d : Data) (src : Nat → Option UInt8) (off tot n : Nat) (hfree : 2 ≤ d.free)
    (hsrc : Readable src n) (htot : tot < n) :
    ∃ d', turn d src off tot n = (d', some (turnLength off tot n)) ∧
      d'.bytes = overlay d.bytes off (turnLength off tot n) (fun i => bytesAt src (tot + i)) ∧
      d'.size = d.size ∧ d.free ≤ d'.free + 2 := by
  obtain ⟨d', hmap, hbytes, hsize, huse⟩ := bmap_spec d (off / BSIZE) hfree
  have hle := turnLength_le off tot n
  have hread : readable src tot (turnLength off tot n) = turnLength off tot n :=
    readable_eq src tot _ fun i hi => hsrc (tot + i) (by omega)
  unfold turn
  rw [hmap]
  simp only [hread, if_true]
  refine ⟨_, rfl, ?_, hsize, huse⟩
  rw [hbytes]
  rfl

/-! ## §3. writei. -/

def grown (d : Data) (off : Nat) : Data := { d with size := max d.size off }

/-- The tests at the head of writei; `off + n` does not wrap around for the sizes that are passed.
-/
def writable (d : Data) (off n : Nat) : Bool := off ≤ d.size && off + n ≤ MAXFILE * BSIZE

/-- The loop, with `tot` and `off` when it ends. -/
def writeiLoop (src : Nat → Option UInt8) (n : Nat) :
    Nat → Data → Nat → Nat → Data × Nat × Nat
  | 0, d, tot, off => (d, tot, off)
  | fuel + 1, d, tot, off =>
    if tot < n then
      match turn d src off tot n with
      | (d, none) => (d, tot, off)
      | (d, some m) => writeiLoop src n fuel d (tot + m) (off + m)
    else (d, tot, off)

def writei (d : Data) (src : Nat → Option UInt8) (off n : Nat) : Data × Int :=
  if writable d off n then
    let r := writeiLoop src n n d 0 off
    (grown r.1 r.2.2, r.2.1)
  else (d, -1)

def touched (off n : Nat) : Nat := (off % BSIZE + n + (BSIZE - 1)) / BSIZE

theorem touched_turn {off tot n : Nat} (htot : tot < n) (hrest : tot + turnLength off tot n < n) :
    touched (off + turnLength off tot n) (n - (tot + turnLength off tot n)) + 1 =
      touched off (n - tot) := by
  have hB : BSIZE = 1024 := rfl
  have hfull : turnLength off tot n = 1024 - off % 1024 := by
    unfold turnLength at hrest ⊢
    rw [hB] at hrest ⊢
    omega
  rw [hfull] at hrest ⊢
  unfold touched
  rw [hB]
  omega

theorem writeiLoop_spec {src : Nat → Option UInt8} {n : Nat} (hsrc : Readable src n)
    (fuel : Nat) (d : Data) (tot off : Nat) (htot : tot ≤ n) (hfuel : n - tot ≤ fuel)
    (hroom : tot < n → 2 * touched off (n - tot) ≤ d.free) :
    ∃ d', writeiLoop src n fuel d tot off = (d', n, off + (n - tot)) ∧
      d'.bytes = overlay d.bytes off (n - tot) (fun i => bytesAt src (tot + i)) ∧
      d'.size = d.size := by
  induction fuel generalizing d tot off with
  | zero =>
    obtain rfl : tot = n := by omega
    exact ⟨d, by simp [writeiLoop], by simp [overlay_zero], rfl⟩
  | succ fuel ih =>
    rw [writeiLoop]
    by_cases hlt : tot < n
    · have hpos := turnLength_pos off hlt
      have hle := turnLength_le off tot n
      have htouch : 1 ≤ touched off (n - tot) := by
        unfold touched
        have hB : BSIZE = 1024 := rfl
        rw [hB]
        omega
      obtain ⟨d₁, hturn, hbytes, hsize, huse⟩ :=
        turn_spec d src off tot n (by have := hroom hlt; omega) hsrc hlt
      rw [if_pos hlt, hturn]
      dsimp only
      have hroom' : tot + turnLength off tot n < n → 2 * touched (off + turnLength off tot n)
          (n - (tot + turnLength off tot n)) ≤ d₁.free := by
        intro hrest
        have hnext := touched_turn hlt hrest
        have hnow := hroom hlt
        omega
      obtain ⟨d', hloop, hbytes', hsize'⟩ := ih d₁ (tot + turnLength off tot n)
        (off + turnLength off tot n) (by omega) (by omega) hroom'
      refine ⟨d', ?_, ?_, hsize'.trans hsize⟩
      · rw [hloop]
        congr 2
        omega
      · rw [hbytes', hbytes]
        have happend := overlay_append d.bytes (fun i => bytesAt src (tot + i))
          (o := off) (n := turnLength off tot n) (k := n - (tot + turnLength off tot n))
        rw [show n - tot = turnLength off tot n + (n - (tot + turnLength off tot n)) by omega,
          ← happend]
        congr 1
        funext i
        congr 1
        omega
    · obtain rfl : tot = n := by omega
      rw [if_neg hlt]
      exact ⟨d, by simp, by simp [overlay_zero], rfl⟩

/-- **writei with room**: all bytes are copied, and the file grows if it has
to. -/
theorem writei_spec (src : Nat → Option UInt8) {n : Nat} (hsrc : Readable src n) (d : Data)
    {off : Nat} (hoff : off ≤ d.size) (hmax : off + n ≤ MAXFILE * BSIZE)
    (hroom : 2 * touched off n ≤ d.free) :
    ∃ d' : Data, writei d src off n = (d', (n : Int)) ∧ d'.bytes = overlay d.bytes off n (bytesAt src) ∧
      d'.size = max d.size (off + n) := by
  obtain ⟨d', hloop, hbytes, hsize⟩ :=
    writeiLoop_spec hsrc n d 0 off (Nat.zero_le n) (by omega) (fun _ => by simpa using hroom)
  have hok : writable d off n = true := by simp [writable, hoff, hmax]
  unfold writei
  rw [if_pos hok, hloop]
  refine ⟨_, rfl, ?_, ?_⟩
  · show d'.bytes = _
    rw [hbytes]
    simp
  · show max d'.size (off + (n - 0)) = _
    rw [hsize, Nat.sub_zero]

end Xv6.FileData
