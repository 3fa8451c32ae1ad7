/-
  Xv6.Lib.Bytes — records and bit maps inside arrays of bytes.

  Numbers are stored little-endian; a bit map keeps bit `i` in byte `i / 8`.
-/
import Mathlib

namespace Xv6.Lib

abbrev Bytes := Nat → UInt8

/-! ## §1. Cells and ranges. -/

section Put

variable {α β : Type}

/-- `f` with the value `v` at `a`: `Function.update` without its transport, so that it computes. -/
def put [DecidableEq α] (f : α → β) (a : α) (v : β) : α → β := fun x => if x = a then v else f x

variable [DecidableEq α] (f : α → β) (a : α) (v : β)

theorem put_apply (x : α) : put f a v x = if x = a then v else f x := rfl

@[simp] theorem put_self : put f a v a = v := if_pos rfl

variable {f a v}

theorem put_of_ne {x : α} (h : x ≠ a) : put f a v x = f x := if_neg h

theorem put_put (w : β) : put (put f a v) a w = put f a w := by
  funext x
  rw [put_apply, put_apply, put_apply]
  split <;> rfl

theorem put_eq_self (f : α → β) (a : α) : put f a (f a) = f := by
  funext x
  rw [put_apply]
  split
  · next h => rw [h]
  · rfl

end Put

/-- `f` over the range of `n` bytes from `o` on. -/
def overlay (b : Bytes) (o n : Nat) (f : Bytes) : Bytes := fun i =>
  if o ≤ i ∧ i < o + n then f (i - o) else b i

section Overlay

variable (b f : Bytes) {o n i k : Nat}

theorem overlay_add (h : k < n) : overlay b o n f (o + k) = f k := by
  unfold overlay
  rw [if_pos (by omega)]
  congr 1
  omega

theorem overlay_of_notMem (h : i < o ∨ o + n ≤ i) : overlay b o n f i = b i := by
  unfold overlay
  rw [if_neg (by omega)]

theorem overlay_zero : overlay b o 0 f = b := by
  funext i
  exact overlay_of_notMem b f (by omega)

theorem overlay_append : overlay (overlay b o n f) (o + n) k (fun i => f (n + i)) =
    overlay b o (n + k) f := by
  funext i
  unfold overlay
  by_cases hlow : o ≤ i ∧ i < o + n
  · rw [if_neg (by omega), if_pos hlow, if_pos (by omega)]
  · by_cases hhigh : o + n ≤ i ∧ i < o + n + k
    · rw [if_pos hhigh, if_pos (by omega)]
      show f (n + (i - (o + n))) = f (i - o)
      congr 1
      omega
    · rw [if_neg hhigh, if_neg hlow, if_neg (by omega)]

end Overlay

/-! ## §2. Numbers. -/

def byteOf (v k : Nat) : UInt8 := UInt8.ofNat (v / 256 ^ k)

theorem toNat_byteOf (v k : Nat) : (byteOf v k).toNat = v / 256 ^ k % 256 := by
  unfold byteOf
  rw [UInt8.toNat_ofNat']

def get16 (b : Bytes) (o : Nat) : UInt16 :=
  UInt16.ofNat ((b o).toNat + 256 * (b (o + 1)).toNat)

def get32 (b : Bytes) (o : Nat) : UInt32 :=
  UInt32.ofNat ((b o).toNat + 256 * (b (o + 1)).toNat + 65536 * (b (o + 2)).toNat +
    16777216 * (b (o + 3)).toNat)

section Numbers

variable {b b' : Bytes} {o o' : Nat}

theorem get16_congr (h : ∀ k < 2, b (o + k) = b' (o' + k)) : get16 b o = get16 b' o' := by
  have h0 := h 0 (by omega)
  have h1 := h 1 (by omega)
  rw [Nat.add_zero, Nat.add_zero] at h0
  unfold get16
  rw [h0, h1]

theorem get32_congr (h : ∀ k < 4, b (o + k) = b' (o' + k)) : get32 b o = get32 b' o' := by
  have h0 := h 0 (by omega)
  have h1 := h 1 (by omega)
  have h2 := h 2 (by omega)
  have h3 := h 3 (by omega)
  rw [Nat.add_zero, Nat.add_zero] at h0
  unfold get32
  rw [h0, h1, h2, h3]

theorem get16_of_bytes {v : UInt16} (h : ∀ k < 2, b (o + k) = byteOf v.toNat k) :
    get16 b o = v := by
  have h0 := h 0 (by omega)
  have h1 := h 1 (by omega)
  rw [Nat.add_zero] at h0
  unfold get16
  rw [h0, h1, toNat_byteOf, toNat_byteOf]
  have hv := v.toNat_lt
  have hsum : v.toNat / 256 ^ 0 % 256 + 256 * (v.toNat / 256 ^ 1 % 256) = v.toNat := by omega
  rw [hsum, UInt16.ofNat_toNat]

theorem get32_of_bytes {v : UInt32} (h : ∀ k < 4, b (o + k) = byteOf v.toNat k) :
    get32 b o = v := by
  have h0 := h 0 (by omega)
  have h1 := h 1 (by omega)
  have h2 := h 2 (by omega)
  have h3 := h 3 (by omega)
  rw [Nat.add_zero] at h0
  unfold get32
  rw [h0, h1, h2, h3, toNat_byteOf, toNat_byteOf, toNat_byteOf, toNat_byteOf]
  have hv := v.toNat_lt
  have hsum : v.toNat / 256 ^ 0 % 256 + 256 * (v.toNat / 256 ^ 1 % 256) +
      65536 * (v.toNat / 256 ^ 2 % 256) + 16777216 * (v.toNat / 256 ^ 3 % 256) = v.toNat := by
    omega
  rw [hsum, UInt32.ofNat_toNat]

theorem get32_of_zero (h : ∀ k < 4, b (o + k) = 0) : get32 b o = 0 := by
  refine get32_of_bytes fun k hk => ?_
  rw [h k hk]
  show 0 = UInt8.ofNat (0 / 256 ^ k)
  rw [Nat.zero_div]
  rfl

end Numbers

def put32 (b : Bytes) (o : Nat) (v : UInt32) : Bytes := overlay b o 4 (byteOf v.toNat)

section Put32

variable (b : Bytes) (v : UInt32) {o o' : Nat}

theorem get32_put32 : get32 (put32 b o v) o = v := get32_of_bytes fun _ hk => overlay_add b _ hk

theorem get32_put32_of_ne (h : o' + 4 ≤ o ∨ o + 4 ≤ o') : get32 (put32 b o v) o' = get32 b o' :=
  get32_congr fun _ hk => overlay_of_notMem b _ (by omega)

end Put32

/-! ## §3. Bit maps. -/

def getBit (b : Bytes) (i : Nat) : Bool := (b (i / 8)).toNat.testBit (i % 8)

def bitMask (i : Nat) : UInt8 := 1 <<< UInt8.ofNat (i % 8)

def setBit (b : Bytes) (i : Nat) (v : Bool) : Bytes :=
  put b (i / 8)
    (if v then b (i / 8) ||| bitMask i else b (i / 8) &&& ~~~bitMask i)

theorem toNat_bitMask (i : Nat) : (bitMask i).toNat = 2 ^ (i % 8) := by
  have hall : ∀ k : Fin 8, ((1 : UInt8) <<< UInt8.ofNat k.val).toNat = 2 ^ k.val := by decide
  exact hall ⟨i % 8, Nat.mod_lt i (by omega)⟩

theorem testBit_or (x m : UInt8) (j : Nat) :
    (x ||| m).toNat.testBit j = (x.toNat.testBit j || m.toNat.testBit j) := by
  rw [UInt8.toNat_or, Nat.testBit_or]

theorem testBit_and_not (x m : UInt8) (j : Nat) :
    (x &&& ~~~m).toNat.testBit j = (x.toNat.testBit j && !m.toNat.testBit j) := by
  show (x &&& ~~~m).toBitVec.getLsbD j = (x.toBitVec.getLsbD j && !m.toBitVec.getLsbD j)
  rw [UInt8.toBitVec_and, UInt8.toBitVec_not, BitVec.getLsbD_and, BitVec.getLsbD_not]
  by_cases hj : j < 8
  · simp [hj]
  · -- past the end of the byte all bits are zero
    rw [BitVec.getLsbD_of_ge x.toBitVec j (by omega)]
    simp

theorem getBit_setBit (b : Bytes) (i j : Nat) (v : Bool) :
    getBit (setBit b i v) j = if j = i then v else getBit b j := by
  unfold getBit setBit
  by_cases hbyte : j / 8 = i / 8
  · rw [hbyte, put_self]
    have hmask : (bitMask i).toNat.testBit (j % 8) = decide (j = i) := by
      rw [toNat_bitMask, Nat.testBit_two_pow]
      exact decide_eq_decide.mpr ⟨fun h => by omega, fun h => by omega⟩
    cases v with
    | true =>
      rw [if_pos rfl, testBit_or, hmask]
      by_cases hij : j = i <;> simp [hij]
    | false =>
      rw [if_neg (by simp), testBit_and_not, hmask]
      by_cases hij : j = i <;> simp [hij]
  · have hij : j ≠ i := by
      rintro rfl
      exact hbyte rfl
    rw [put_of_ne hbyte, if_neg hij]

end Xv6.Lib
