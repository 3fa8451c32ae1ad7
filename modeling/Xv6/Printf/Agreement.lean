/-
  Xv6.Printf.Agreement — when the two printf functions print the same.

  The kernel widens an `int` with its sign before it prints it as unsigned, and the user
  library cuts a `long` down to an `int`.
-/
import Xv6.Printf.Format

namespace Xv6.Printf

open Lib BitVec Option

/-! ## §1. Items. -/

inductive Item where
  | text (bytes : Bytes)
  | int (kind : Kind) (w : BitVec 32)
  | long (kind : Kind) (w : BitVec 64)
  | ptr (w : BitVec 64)
  deriving DecidableEq

/-- The item of a conversion and the arguments left; `none` for an argument of another type. -/
def takeItem (c0 : UInt8) : Conv → List Arg → Option (Item × List Arg)
  | .num kind false, .int w :: args => some (.int kind w, args)
  | .num kind true, .long w :: args => some (.long kind w, args)
  | .ptr, .long w :: args => some (.ptr w, args)
  | .str, .str s :: args => some (.text (printstr s), args)
  | .percent, args => some (.text [chPercent], args)
  | .unknown, args => some (.text [chPercent, c0], args)
  | _, _ => none

def itemsFrom (fmt : Bytes) : Nat → Nat → List Arg → Option (List Item)
  | 0, _, _ => none
  | fuel + 1, i, args =>
    if charAt fmt i = 0 then some []
    else if charAt fmt i ≠ chPercent then
      (itemsFrom fmt fuel (i + 1) args).map (Item.text [charAt fmt i] :: ·)
    else if charAt fmt (i + 1) = 0 then some []
    else
      (takeItem (charAt fmt (i + 1)) (conversionAt fmt (i + 1)).1 args).bind fun r =>
        (itemsFrom fmt fuel (i + 1 + (conversionAt fmt (i + 1)).2 + 1) r.2).map (r.1 :: ·)

/-- The items of a format with arguments of the matching types. -/
def items (fmt : Bytes) (args : List Arg) : Option (List Item) :=
  itemsFrom fmt (fmt.length + 1) 0 args

def printAll (print : Item → Option Chunk) : List Item → Option (List Chunk)
  | [] => some []
  | it :: l => (print it).bind fun chunk => (printAll print l).map (chunk :: ·)

/-- One item; `int` and `long` print an integer of that type. -/
def printItem (int : BitVec 32 → Nat → Bool → Option Bytes)
    (long : BitVec 64 → Nat → Bool → Option Bytes) (glyph : Nat → UInt8) : Item → Option Chunk
  | .text bytes => some (.text bytes)
  | .int kind w => (int w kind.base kind.sign).map (.num kind.base (kind.value (.int w)))
  | .long kind w => (long w kind.base kind.sign).map (.num kind.base (kind.value (.long w)))
  | .ptr w => some (.ptr (printptr glyph w))

def kernelItem : Item → Option Chunk :=
  printItem (fun w => kernelPrintint (w.signExtend 64)) kernelPrintint kernelDigit

def userItem : Item → Option Chunk :=
  printItem userPrintint (fun w => userPrintint (w.setWidth 32)) userDigit

theorem kernelConv_eq (c0 : UInt8) (c : Conv) (args : List Arg) : kernelConv c0 c args =
      (takeItem c0 c args).bind fun r => (kernelItem r.1).map fun chunk => (chunk, r.2) := by
  unfold kernelConv takeItem
  split <;> simp [kernelItem, printItem, map_map, Function.comp_def]

theorem userConv_eq (c0 : UInt8) (c : Conv) (args : List Arg) : userConv c0 c args =
      (takeItem c0 c args).bind fun r => (userItem r.1).map fun chunk => (chunk, r.2) := by
  unfold userConv takeItem
  split <;> simp [userItem, printItem, map_map, Function.comp_def]

/-! ## §2. Both loops print the items. -/

theorem bind_printAll (print : Item → Option Chunk) (o : Option (Item × List Arg))
    (rest : List Arg → Option (List Item)) :
    ((o.bind fun r => (print r.1).map fun chunk => (chunk, r.2)).bind fun r =>
        ((rest r.2).bind (printAll print)).map (r.1 :: ·)) =
      (o.bind fun r => (rest r.2).map (r.1 :: ·)).bind (printAll print) := by
  cases o with
  | none => rfl
  | some r =>
    cases hprint : print r.1 with
    | none | some chunk =>
      cases hrest : rest r.2 with
      | none => simp [hprint, hrest]
      | some l => simp [hprint, hrest, printAll]

theorem map_text_printAll {print : Item → Option Chunk} {bytes : Bytes}
    (hprint : print (.text bytes) = some (.text bytes)) (o : Option (List Item)) :
    (o.bind (printAll print)).map (Chunk.text bytes :: ·) =
      (o.map (Item.text bytes :: ·)).bind (printAll print) := by
  cases o with
  | none => rfl
  | some l => simp [printAll, hprint]

theorem conversionAt_end {fmt : Bytes} {i : Nat} (h : charAt fmt i = 0) :
    (conversionAt fmt i).1 = .unknown := by
  simp only [conversionAt, h, ne_eq, not_true_eq_false, if_false]
  rfl

theorem printfLoop_eq (fmt : Bytes) (fuel i : Nat) (args : List Arg) :
    printfLoop fmt fuel i args = (itemsFrom fmt fuel i args).bind (printAll kernelItem) := by
  induction fuel generalizing i args with
  | zero => rfl
  | succ fuel ih =>
    simp only [printfLoop, itemsFrom]
    by_cases hend : charAt fmt i = 0
    · simp [hend, printAll]
    · rw [if_neg hend, if_neg hend]
      by_cases hplain : charAt fmt i ≠ chPercent
      · rw [if_pos hplain, if_pos hplain, ih]
        exact map_text_printAll rfl _
      · rw [if_neg hplain, if_neg hplain]
        by_cases hstop : charAt fmt (i + 1) = 0
        · rw [if_pos ⟨conversionAt_end hstop, hstop⟩, if_pos hstop]
          rfl
        · rw [if_neg (fun h => hstop h.2), if_neg hstop, kernelConv_eq]
          simp only [ih]
          exact bind_printAll kernelItem _ fun args =>
            itemsFrom fmt fuel (i + 1 + (conversionAt fmt (i + 1)).2 + 1) args

/-- **The kernel prints the items.** -/
theorem printf_eq (fmt : Bytes) (args : List Arg) :
    printf fmt args = (items fmt args).bind (printAll kernelItem) :=
  printfLoop_eq fmt (fmt.length + 1) 0 args

theorem lt_length_of_charAt {fmt : Bytes} {i : Nat} (h : charAt fmt i ≠ 0) : i < fmt.length := by
  by_contra hge
  apply h
  unfold charAt
  rw [List.getD_eq_getElem?_getD, List.getElem?_eq_none (by omega)]
  rfl

/-- The user's loop needs a second turn for a conversion, so the fuel of the two sides is
independent. -/
theorem vprintfLoop_eq (fmt : Bytes) (fuel i : Nat) (args : List Arg)
    (hfuel : fmt.length - i < fuel) (turns : Nat) (hturns : fmt.length - i < turns) :
    vprintfLoop fmt turns i false args = (itemsFrom fmt fuel i args).bind (printAll userItem) := by
  induction fuel generalizing i args turns with
  | zero => omega
  | succ fuel ih =>
    obtain ⟨turns, rfl⟩ : ∃ n, turns = n + 1 := ⟨turns - 1, by omega⟩
    rw [vprintfLoop, itemsFrom]
    by_cases hend : charAt fmt i = 0
    · simp [hend, printAll]
    · have hi := lt_length_of_charAt hend
      dsimp only
      rw [if_neg hend, if_neg hend, if_pos rfl]
      by_cases hplain : charAt fmt i = chPercent
      · rw [if_pos hplain, if_neg (not_not.mpr hplain)]
        -- the second turn, behind the `%`
        obtain ⟨turns, rfl⟩ : ∃ n, turns = n + 1 := ⟨turns - 1, by omega⟩
        rw [vprintfLoop]
        dsimp only
        by_cases hstop : charAt fmt (i + 1) = 0
        · rw [if_pos hstop, if_pos hstop]
          rfl
        · have hi' := lt_length_of_charAt hstop
          rw [if_neg hstop, if_neg hstop, if_neg (by decide), userConv_eq]
          have hrest : ∀ args, vprintfLoop fmt turns
                (i + 1 + (conversionAt fmt (i + 1)).2 + 1) false args =
              (itemsFrom fmt fuel (i + 1 + (conversionAt fmt (i + 1)).2 + 1) args).bind
                (printAll userItem) :=
            fun args => ih _ args (by omega) turns (by omega)
          simp only [hrest]
          exact bind_printAll userItem _ fun args =>
            itemsFrom fmt fuel (i + 1 + (conversionAt fmt (i + 1)).2 + 1) args
      · rw [if_neg hplain, if_pos hplain, ih (i + 1) args (by omega) turns (by omega)]
        exact map_text_printAll rfl _

/-- **The user library prints the same items.** -/
theorem vprintf_eq (fmt : Bytes) (args : List Arg) :
    vprintf fmt args = (items fmt args).bind (printAll userItem) :=
  vprintfLoop_eq fmt (fmt.length + 1) 0 args (by omega) (fmt.length + 1) (by omega)

/-! ## §3. Digits. -/

def lower (b : UInt8) : UInt8 := if 65 ≤ b ∧ b ≤ 90 then b + 32 else b

theorem kernelDigit_inj : ∀ d < 16, ∀ e < 16, kernelDigit d = kernelDigit e → d = e := by decide

theorem kernelDigit_ne_minus : ∀ d < 16, kernelDigit d ≠ chMinus := by decide

theorem lower_kernelDigit : ∀ d < 16, lower (kernelDigit d) = kernelDigit d := by decide

theorem lower_userDigit : ∀ d < 16, lower (userDigit d) = kernelDigit d := by decide

theorem Kind.one_lt_base (kind : Kind) : 1 < kind.base := by cases kind <;> decide

theorem Kind.base_le (kind : Kind) : kind.base ≤ 16 := by cases kind <;> decide

/-- The numeral of a value, in lower-case letters. -/
def Kind.numeral (kind : Kind) (v : Int) : Bytes :=
  Lib.numeral kernelDigit chMinus kind.base v

theorem Kind.numeral_inj (kind : Kind) {v w : Int} (h : kind.numeral v = kind.numeral w) :
    v = w := by
  have hle := kind.base_le
  exact Lib.numeral_inj kind.one_lt_base
    (fun d hd e he => kernelDigit_inj d (by omega) e (by omega))
    (fun d hd => kernelDigit_ne_minus d (by omega)) h

variable {glyph : Nat → UInt8}

theorem Kind.map_lower (kind : Kind)
    (hglyph : ∀ d < 16, lower (glyph d) = kernelDigit d) (v : Int) :
    (Lib.numeral glyph chMinus kind.base v).map lower = kind.numeral v := by
  have hle := kind.base_le
  rw [map_numeral]
  exact numeral_congr chMinus kind.one_lt_base (fun d hd => hglyph d (by omega)) v

theorem Kind.numeral_length_le_iff (kind : Kind) (glyph : Nat → UInt8) (v : Int) :
    (Lib.numeral glyph chMinus kind.base v).length ≤ 16 ↔
      v.natAbs < kind.base ^ (if v < 0 then 15 else 16) :=
  Lib.numeral_length_le_iff kind.one_lt_base (by decide)

theorem Kind.numeral_length_le (kind : Kind) (glyph : Nat → UInt8) {v : Int}
    (h : v.natAbs < 2 ^ 32) : (Lib.numeral glyph chMinus kind.base v).length ≤ 16 := by
  rw [kind.numeral_length_le_iff]
  cases kind <;> split <;> simp only [Kind.base] <;> omega

/-! ## §4. What printint prints. -/

/-- A word read with the signedness of the conversion. -/
def Kind.read {n : Nat} (kind : Kind) (xx : BitVec n) : Int :=
  if kind.sign then xx.toInt else xx.toNat

theorem toNat_neg_of_neg {n : Nat} {xx : BitVec n} (h : xx.toInt < 0) :
    (-xx).toNat = xx.toInt.natAbs := by
  have hlt := xx.isLt
  rw [toNat_neg]
  rw [toInt_eq_toNat_cond] at h ⊢
  split at h
  · omega
  · next hbig =>
    rw [if_neg hbig, Nat.mod_eq_of_lt (by omega)]
    omega

theorem toNat_of_nonneg {n : Nat} {xx : BitVec n} (h : ¬ xx.toInt < 0) :
    (xx.toNat : Int) = xx.toInt := by
  have hlt := xx.isLt
  rw [toInt_eq_toNat_cond] at h ⊢
  split
  · rfl
  · next hbig =>
    rw [if_neg hbig] at h
    omega

/-- **printint**, of either width: the numeral of the word as it is read, if
it fits into the buffer. -/
theorem printint_eq (glyph : Nat → UInt8) (kind : Kind) {n : Nat} (xx : BitVec (n + 1))
    {neg : Bool} (hneg : neg = (kind.sign && decide (xx.toInt < 0))) :
    printBuf (fillBuf glyph kind.base (n + 1) (if neg then -xx else xx).toNat neg) =
      if (Lib.numeral glyph chMinus kind.base (kind.read xx)).length ≤ 16 then
        some (Lib.numeral glyph chMinus kind.base (kind.read xx))
      else none := by
  have hpow : 2 ^ (n + 1) ≤ kind.base ^ (n + 1) := Nat.pow_le_pow_left kind.one_lt_base _
  have hdigits : ∀ x : BitVec (n + 1),
      digitLoop kind.base (n + 1) x.toNat = magnitude kind.base x.toNat :=
    fun x => digitLoop_eq_magnitude kind.one_lt_base n _ (lt_of_lt_of_le x.isLt hpow)
  have hbuf : (fillBuf glyph kind.base (n + 1) (if neg then -xx else xx).toNat neg).reverse =
      Lib.numeral glyph chMinus kind.base (kind.read xx) := by
    unfold fillBuf Lib.numeral Kind.read
    rw [hdigits, List.reverse_append, hneg]
    cases hsign : kind.sign with
    | true =>
      by_cases hlt : xx.toInt < 0
      · simp [hlt, toNat_neg_of_neg hlt]
      · have hnat : xx.toInt.natAbs = xx.toNat := by
          have := toNat_of_nonneg hlt
          omega
        simp [hlt, hnat]
    | false => simp
  unfold printBuf
  rw [← hbuf, List.length_reverse]

theorem kernelPrintint_eq (kind : Kind) (xx : BitVec 64) : kernelPrintint xx kind.base kind.sign =
      if (Lib.numeral kernelDigit chMinus kind.base (kind.read xx)).length ≤ 16 then
        some (Lib.numeral kernelDigit chMinus kind.base (kind.read xx))
      else none := printint_eq kernelDigit kind xx rfl

theorem userPrintint_eq (kind : Kind) (xx : BitVec 32) : userPrintint xx kind.base kind.sign =
      if (Lib.numeral userDigit chMinus kind.base (kind.read xx)).length ≤ 16 then
        some (Lib.numeral userDigit chMinus kind.base (kind.read xx))
      else none := printint_eq userDigit kind xx rfl

theorem prints_iff (kind : Kind) (hglyph : ∀ d < 16, lower (glyph d) = kernelDigit d) (r v : Int) :
    (Lib.numeral glyph chMinus kind.base r).map lower = kind.numeral v ↔ r = v := by
  rw [kind.map_lower hglyph]
  constructor
  · exact kind.numeral_inj
  · intro h
    rw [h]

/-! ## §5. Single items. -/

/-- The conversion has printed the numeral of its argument. -/
def Chunk.Exact : Chunk → Prop
  | .num base value bytes => bytes.map lower = Lib.numeral kernelDigit chMinus base value
  | .text _ | .ptr _ => True

/-- The same bytes, up to the case of hexadecimal digits. -/
def Chunk.Same : Chunk → Chunk → Prop
  | .text a, .text b => a = b
  | .num _ _ a, .num _ _ b | .ptr a, .ptr b => a.map lower = b.map lower
  | _, _ => False

def Item.Agrees (it : Item) : Prop :=
  ∃ k u, kernelItem it = some k ∧ userItem it = some u ∧ k.Same u ∧ k.Exact ∧ u.Exact

/-- An `int` printed as unsigned has no sign bit; a `long` fits the 32 bits
that the user library prints. -/
def Item.InRange : Item → Prop
  | .int .d _ => True
  | .int _ w => w.toNat < 2 ^ 31
  | .long .d w => -2 ^ 31 ≤ w.toInt ∧ w.toInt < 2 ^ 31
  | .long _ w => w.toNat < 2 ^ 32
  | .text _ | .ptr _ => True

theorem agrees_num_iff (kind : Kind) (v kv uv : Int) (kernel user : Option Bytes)
    (hk : kernel = if (Lib.numeral kernelDigit chMinus kind.base kv).length ≤ 16 then
      some (Lib.numeral kernelDigit chMinus kind.base kv) else none)
    (hu : user = if (Lib.numeral userDigit chMinus kind.base uv).length ≤ 16 then
      some (Lib.numeral userDigit chMinus kind.base uv) else none)
    (hshort : kv = v → uv = v → v.natAbs < 2 ^ 32) :
    (∃ k u, kernel.map (Chunk.num kind.base v) = some k ∧
        user.map (Chunk.num kind.base v) = some u ∧ k.Same u ∧ k.Exact ∧ u.Exact) ↔
      kv = v ∧ uv = v := by
  constructor
  · rintro ⟨k, u, hk', hu', _, hke, hue⟩
    obtain ⟨kb, hkb, rfl⟩ := map_eq_some_iff.mp hk'
    obtain ⟨ub, hub, rfl⟩ := map_eq_some_iff.mp hu'
    rw [hk] at hkb
    rw [hu] at hub
    split at hkb
    case isFalse => cases hkb
    case isTrue =>
      split at hub
      case isFalse => cases hub
      case isTrue =>
        cases hkb
        cases hub
        exact ⟨(prints_iff kind lower_kernelDigit kv v).mp hke,
          (prints_iff kind lower_userDigit uv v).mp hue⟩
  · rintro ⟨rfl, rfl⟩
    have hlen := hshort rfl rfl
    rw [if_pos (kind.numeral_length_le kernelDigit hlen)] at hk
    rw [if_pos (kind.numeral_length_le userDigit hlen)] at hu
    have hkl := kind.map_lower lower_kernelDigit uv
    have hul := kind.map_lower lower_userDigit uv
    rw [hk, hu]
    exact ⟨_, _, rfl, rfl, hkl.trans hul.symm, hkl, hul⟩

section

variable (hglyph : ∀ d < 16, lower (glyph d) = kernelDigit d)

include hglyph

theorem lower_nibbles (n : Nat) (x : BitVec 64) : (nibbles glyph n x).map lower = nibbles kernelDigit n x := by
  induction n generalizing x with
  | zero => rfl
  | succ n ih =>
    have hlt : (x >>> 60).toNat < 16 := by
      have hx := x.isLt
      rw [toNat_ushiftRight, Nat.shiftRight_eq_div_pow]
      omega
    simp only [nibbles, List.map_cons, ih, hglyph _ hlt]

theorem lower_printptr (x : BitVec 64) : (printptr glyph x).map lower = printptr kernelDigit x := by
  unfold printptr
  rw [List.map_append, lower_nibbles hglyph]
  rfl

end

/-- The kernel reads an `int` as its own value, unless it prints it as
unsigned and the sign bit is set. -/
theorem read_signExtend_iff (kind : Kind) (w : BitVec 32) :
    kind.read (w.signExtend 64) = kind.read w ↔ (Item.int kind w).InRange := by
  have hext : (w.signExtend 64).toInt = w.toInt := toInt_signExtend_of_le (by omega)
  have hlt := w.isLt
  have hlt' := (w.signExtend 64).isLt
  have hsigned := toInt_eq_toNat_cond w
  have hsigned' := toInt_eq_toNat_cond (w.signExtend 64)
  have hunsigned : (((w.signExtend 64).toNat : Int) = w.toNat) ↔ w.toNat < 2 ^ 31 := by
    split at hsigned <;> split at hsigned' <;> omega
  cases kind with
  | d => exact iff_of_true hext trivial
  | u | x => exact hunsigned

theorem read_setWidth_iff (kind : Kind) (w : BitVec 64) :
    kind.read (w.setWidth 32) = kind.read w ↔ (Item.long kind w).InRange := by
  have hlt := w.isLt
  have hcut : (w.setWidth 32).toNat = w.toNat % 2 ^ 32 := toNat_setWidth 32 w
  have hsigned := toInt_eq_toNat_cond w
  have hsigned' := toInt_eq_toNat_cond (w.setWidth 32)
  have hunsigned : (((w.setWidth 32).toNat : Int) = w.toNat) ↔ w.toNat < 2 ^ 32 := by omega
  cases kind with
  | d =>
    show (w.setWidth 32).toInt = w.toInt ↔ -2 ^ 31 ≤ w.toInt ∧ w.toInt < 2 ^ 31
    rw [hcut] at hsigned'
    split at hsigned <;> split at hsigned' <;> omega
  | u | x => exact hunsigned

theorem read_natAbs_lt (kind : Kind) (w : BitVec 32) : (kind.read w).natAbs < 2 ^ 32 := by
  have hlt := w.isLt
  have hsigned := toInt_eq_toNat_cond w
  unfold Kind.read
  split
  · split at hsigned <;> omega
  · omega

/-- **A single item.** -/
theorem agrees_iff (it : Item) : it.Agrees ↔ it.InRange := by
  cases it with
  | text bytes => exact iff_of_true ⟨_, _, rfl, rfl, rfl, trivial, trivial⟩ trivial
  | ptr w =>
    refine iff_of_true ⟨_, _, rfl, rfl, ?_, trivial, trivial⟩ trivial
    exact (lower_printptr lower_kernelDigit w).trans (lower_printptr lower_userDigit w).symm
  | int kind w =>
    rw [← read_signExtend_iff]
    refine (agrees_num_iff kind (kind.read w) (kind.read (w.signExtend 64)) (kind.read w) _ _
      (kernelPrintint_eq kind _) (userPrintint_eq kind w)
      (fun _ _ => read_natAbs_lt kind w)).trans ?_
    exact and_iff_left rfl
  | long kind w =>
    rw [← read_setWidth_iff]
    refine (agrees_num_iff kind (kind.read w) (kind.read w) (kind.read (w.setWidth 32)) _ _
      (kernelPrintint_eq kind w) (userPrintint_eq kind _)
      (fun _ h => h ▸ read_natAbs_lt kind _)).trans ?_
    exact and_iff_right rfl

/-! ## §6. Whole formats. -/

/-- The two print the same, up to the case of digits, and every integer prints its numeral. -/
def Agree (fmt : Bytes) (args : List Arg) : Prop :=
  ∃ k u, printf fmt args = some k ∧ vprintf fmt args = some u ∧ List.Forall₂ Chunk.Same k u ∧
    (∀ chunk ∈ k, chunk.Exact) ∧ ∀ chunk ∈ u, chunk.Exact

theorem lower_output_eq {k u : List Chunk} (h : List.Forall₂ Chunk.Same k u) :
    (output k).map lower = (output u).map lower := by
  induction h with
  | nil => rfl
  | @cons a b k u hab _ ih =>
    have hbytes : a.bytes.map lower = b.bytes.map lower := by
      cases a <;> cases b <;> simp_all [Chunk.Same, Chunk.bytes]
    unfold output at ih ⊢
    rw [List.flatMap_cons, List.flatMap_cons, List.map_append, List.map_append, hbytes, ih]

theorem printAll_agree_iff (l : List Item) :
    (∃ k u, printAll kernelItem l = some k ∧ printAll userItem l = some u ∧
        List.Forall₂ Chunk.Same k u ∧ (∀ chunk ∈ k, chunk.Exact) ∧ ∀ chunk ∈ u, chunk.Exact) ↔
      ∀ it ∈ l, it.Agrees := by
  induction l with
  | nil => simp [printAll]
  | cons it l ih =>
    rw [List.forall_mem_cons, ← ih]
    constructor
    · rintro ⟨k, u, hk, hu, hsame, hke, hue⟩
      obtain ⟨a, ha, hk⟩ := bind_eq_some_iff.mp hk
      obtain ⟨b, hb, hu⟩ := bind_eq_some_iff.mp hu
      obtain ⟨k, hkrest, rfl⟩ := map_eq_some_iff.mp hk
      obtain ⟨u, hurest, rfl⟩ := map_eq_some_iff.mp hu
      obtain ⟨hab, hrest⟩ := List.forall₂_cons.mp hsame
      rw [List.forall_mem_cons] at hke hue
      exact ⟨⟨a, b, ha, hb, hab, hke.1, hue.1⟩, k, u, hkrest, hurest, hrest, hke.2, hue.2⟩
    · rintro ⟨⟨a, b, ha, hb, hab, hae, hbe⟩, k, u, hk, hu, hrest, hke, hue⟩
      refine ⟨a :: k, b :: u, ?_, ?_, .cons hab hrest, ?_, ?_⟩
      · rw [printAll, ha, bind_some, hk, map_some]
      · rw [printAll, hb, bind_some, hu, map_some]
      · exact List.forall_mem_cons.mpr ⟨hae, hke⟩
      · exact List.forall_mem_cons.mpr ⟨hbe, hue⟩

/-- **When the two printf functions agree**: exactly when every `%u` and `%x` has an argument below
2^31 and every conversion with `l` one that fits 32 bits. -/
theorem printf_agree_iff {fmt : Bytes} {args : List Arg} {l : List Item}
    (h : items fmt args = some l) : Agree fmt args ↔ ∀ it ∈ l, it.InRange := by
  unfold Agree
  rw [printf_eq, vprintf_eq, h]
  simp only [Option.bind_some]
  rw [printAll_agree_iff]
  simp only [agrees_iff]

/-- The line that `myrep` prints for a report. -/
theorem printf_agree_report :
    Agree (ascii "%d\t%s\t0x%lx\n") [.int 3, .str (some (ascii "sh")), .long 0x1a8] := by
  have hitems : items (ascii "%d\t%s\t0x%lx\n") [.int 3, .str (some (ascii "sh")), .long 0x1a8] =
      some [.int .d 3, .text [9], .text (ascii "sh"), .text [9], .text [48], .text [120],
        .long .x 0x1a8, .text [10]] := by decide +kernel
  refine (printf_agree_iff hitems).mpr ?_
  simp [Item.InRange]

/-- **The top half of the 32-bit range, and values above it**, where the kernel spreads the sign or
runs over its buffer, and the user library cuts. -/
theorem printf_disagree :
    ¬ Agree (ascii "%x") [.int 0x80000000] ∧
      (printf (ascii "%x") [.int 0x80000000]).map output = some (ascii "ffffffff80000000") ∧
      (vprintf (ascii "%x") [.int 0x80000000]).map output = some (ascii "80000000") ∧
      printf (ascii "%u") [.int 0xffffffff] = none ∧
      (printf (ascii "%lx") [.long 0x100000000]).map output = some (ascii "100000000") ∧
      (vprintf (ascii "%lx") [.long 0x100000000]).map output = some (ascii "0") := by
  have hk : (printf (ascii "%x") [.int 0x80000000]).map output =
      some (ascii "ffffffff80000000") := by decide +kernel
  have hu : (vprintf (ascii "%x") [.int 0x80000000]).map output = some (ascii "80000000") := by
    decide +kernel
  refine ⟨?_, hk, hu, by decide +kernel, by decide +kernel, by decide +kernel⟩
  rintro ⟨k, u, hpk, hpu, hsame, _⟩
  rw [hpk] at hk
  rw [hpu] at hu
  have hlower := lower_output_eq hsame
  rw [Option.some.inj hk, Option.some.inj hu] at hlower
  exact absurd hlower (by decide)

/-! ## §7. The buffer of the kernel's printint. -/

/-- The digits of the word that printint gets, and their sign, fit into 16 bytes. -/
def Item.FitsBuf : Item → Prop
  | .int .u w => w.toNat < 2 ^ 31
  | .long .d w => -10 ^ 15 < w.toInt ∧ w.toInt < 10 ^ 16
  | .long .u w => w.toNat < 10 ^ 16
  | _ => True

theorem kernelPrintint_isSome_iff (kind : Kind) (xx : BitVec 64) :
    (kernelPrintint xx kind.base kind.sign).isSome ↔ (Item.long kind xx).FitsBuf := by
  have hlt := xx.isLt
  have hlen := kind.numeral_length_le_iff kernelDigit (kind.read xx)
  have hsome : (kernelPrintint xx kind.base kind.sign).isSome ↔
      (Lib.numeral kernelDigit chMinus kind.base (kind.read xx)).length ≤ 16 := by
    rw [kernelPrintint_eq]
    split <;> simp_all
  rw [hsome, hlen]
  cases kind with
  | d =>
    show xx.toInt.natAbs < 10 ^ (if xx.toInt < 0 then 15 else 16) ↔ _ ∧ _
    split <;> omega
  | u =>
    show (xx.toNat : Int).natAbs < 10 ^ (if (xx.toNat : Int) < 0 then 15 else 16) ↔ _ < _
    rw [if_neg (by omega)]
    omega
  | x =>
    show (xx.toNat : Int).natAbs < 16 ^ (if (xx.toNat : Int) < 0 then 15 else 16) ↔ True
    rw [if_neg (by omega)]
    exact iff_of_true (by omega) trivial

theorem fitsBuf_signExtend (kind : Kind) (w : BitVec 32) :
    (Item.long kind (w.signExtend 64)).FitsBuf ↔ (Item.int kind w).FitsBuf := by
  have hlt := w.isLt
  have hext : (w.signExtend 64).toInt = w.toInt := toInt_signExtend_of_le (by omega)
  have hsigned := toInt_eq_toNat_cond w
  have hsigned' := toInt_eq_toNat_cond (w.signExtend 64)
  cases kind with
  | d =>
    refine iff_of_true ?_ trivial
    show _ < _ ∧ _ < _
    split at hsigned <;> omega
  | u =>
    show (w.signExtend 64).toNat < 10 ^ 16 ↔ w.toNat < 2 ^ 31
    -- with the sign bit set the extension is at least 2^64 - 2^31
    split at hsigned <;> split at hsigned' <;> omega
  | x => exact Iff.rfl

/-- **When printint stays inside its buffer**, for every conversion of printf and its argument. -/
theorem printint_in_buf_iff (it : Item) : (kernelItem it).isSome ↔ it.FitsBuf := by
  cases it with
  | text bytes | ptr w => exact iff_of_true rfl trivial
  | int kind w =>
    rw [← fitsBuf_signExtend, ← kernelPrintint_isSome_iff]
    simp [kernelItem, printItem]
  | long kind w =>
    rw [← kernelPrintint_isSome_iff]
    simp [kernelItem, printItem]

/-- `%u` of an `int` with its sign bit set makes 20 digits, and `%ld` of the least `long` 19 and a
sign. -/
theorem printint_overruns_buf :
    (fillBuf kernelDigit 10 64 ((0xffffffff : BitVec 32).signExtend 64).toNat false).length = 20 ∧
      printf (ascii "%u") [.int 0xffffffff] = none ∧
      printf (ascii "%ld") [.long 0x8000000000000000] = none := by
  refine ⟨by decide +kernel, by decide +kernel, by decide +kernel⟩

end Xv6.Printf
