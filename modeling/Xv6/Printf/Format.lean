/-
  Xv6.Printf.Format — the two printf functions (kernel/printf.c and user/printf.c).

  The output is kept in chunks: one for every byte that is copied and one for every
  conversion.
-/
import Xv6.Lib.Numeral

namespace Xv6.Printf

open Lib

abbrev Bytes := List UInt8

def ascii (s : String) : Bytes := s.toList.map fun c => UInt8.ofNat c.toNat

/-! ## §1. Arguments and conversions. -/

inductive Arg where
  | int (w : BitVec 32)
  | long (w : BitVec 64)
  | str (s : Option Bytes)
  deriving DecidableEq

/-- `%d`, `%u` and `%x`. -/
inductive Kind where
  | d | u | x
  deriving DecidableEq

def Kind.base : Kind → Nat
  | .d | .u => 10
  | .x => 16

def Kind.sign : Kind → Bool
  | .d => true
  | .u | .x => false

inductive Conv where
  /-- An integer conversion; `long` with one or two `l`. -/
  | num (kind : Kind) (long : Bool)
  | ptr
  | str
  | percent
  | unknown
  deriving DecidableEq

abbrev chD : UInt8 := 100
abbrev chL : UInt8 := 108
abbrev chP : UInt8 := 112
abbrev chS : UInt8 := 115
abbrev chU : UInt8 := 117
abbrev chX : UInt8 := 120
abbrev chPercent : UInt8 := 37
abbrev chMinus : UInt8 := 45

/-- The chain of tests on the characters behind `%`, and what `i` is advanced
by. -/
def conversion (c0 c1 c2 : UInt8) : Conv × Nat :=
  if c0 = chD then (.num .d false, 0)
  else if c0 = chL ∧ c1 = chD then (.num .d true, 1)
  else if c0 = chL ∧ c1 = chL ∧ c2 = chD then (.num .d true, 2)
  else if c0 = chU then (.num .u false, 0)
  else if c0 = chL ∧ c1 = chU then (.num .u true, 1)
  else if c0 = chL ∧ c1 = chL ∧ c2 = chU then (.num .u true, 2)
  else if c0 = chX then (.num .x false, 0)
  else if c0 = chL ∧ c1 = chX then (.num .x true, 1)
  else if c0 = chL ∧ c1 = chL ∧ c2 = chX then (.num .x true, 2)
  else if c0 = chP then (.ptr, 0)
  else if c0 = chS then (.str, 0)
  else if c0 = chPercent then (.percent, 0)
  else (.unknown, 0)

def charAt (fmt : Bytes) (i : Nat) : UInt8 := fmt.getD i 0

/-- The conversion at index `i`: `c1` and `c2` are read only behind characters
of the format. -/
def conversionAt (fmt : Bytes) (i : Nat) : Conv × Nat :=
  let c0 := charAt fmt i
  let c1 := if c0 ≠ 0 then charAt fmt (i + 1) else 0
  let c2 := if c1 ≠ 0 then charAt fmt (i + 2) else 0
  conversion c0 c1 c2

def Kind.value (kind : Kind) : Arg → Int
  | .int w => if kind.sign then w.toInt else w.toNat
  | .long w => if kind.sign then w.toInt else w.toNat
  | .str _ => 0

/-! ## §2. Output. -/

inductive Chunk where
  | text (bytes : Bytes)
  | num (base : Nat) (value : Int) (bytes : Bytes)
  | ptr (bytes : Bytes)
  deriving DecidableEq

def Chunk.bytes : Chunk → Bytes
  | .text bytes | .num _ _ bytes | .ptr bytes => bytes

def output (chunks : List Chunk) : Bytes := chunks.flatMap Chunk.bytes

def kernelDigit (d : Nat) : UInt8 := (ascii "0123456789abcdef").getD d 0

def userDigit (d : Nat) : UInt8 := (ascii "0123456789ABCDEF").getD d 0

/-- `char buf[16]`, filled and then printed backwards; `none` is a store
behind its end. -/
def printBuf (buf : Bytes) : Option Bytes := if buf.length ≤ 16 then some buf.reverse else none

def fillBuf (glyph : Nat → UInt8) (base fuel x : Nat) (neg : Bool) : Bytes :=
  (digitLoop base fuel x).map glyph ++ if neg then [chMinus] else []

/-- printint of the kernel, on a `long long`. -/
def kernelPrintint (xx : BitVec 64) (base : Nat) (sign : Bool) : Option Bytes :=
  let neg := sign && decide (xx.toInt < 0)
  let x := if neg then -xx else xx
  printBuf (fillBuf kernelDigit base 64 x.toNat neg)

/-- printint of the user library, on an `int`. -/
def userPrintint (xx : BitVec 32) (base : Nat) (sgn : Bool) : Option Bytes :=
  let neg := sgn && decide (xx.toInt < 0)
  let x := if neg then -xx else xx
  printBuf (fillBuf userDigit base 32 x.toNat neg)

def nibbles (glyph : Nat → UInt8) : Nat → BitVec 64 → Bytes
  | 0, _ => []
  | n + 1, x => glyph (x >>> 60).toNat :: nibbles glyph n (x <<< 4)

def printptr (glyph : Nat → UInt8) (x : BitVec 64) : Bytes := ascii "0x" ++ nibbles glyph 16 x

/-- `%s`: a null pointer is printed as `(null)`. -/
def printstr (s : Option Bytes) : Bytes := (s.getD (ascii "(null)")).takeWhile (· ≠ 0)

/-! ## §3. The kernel's printf. -/

/-- What is printed and the arguments left; `none` for an argument of another type. -/
def kernelConv (c0 : UInt8) : Conv → List Arg → Option (Chunk × List Arg)
  | .num kind false, .int w :: args =>
    (kernelPrintint (w.signExtend 64) kind.base kind.sign).map fun bytes =>
      (.num kind.base (kind.value (.int w)) bytes, args)
  | .num kind true, .long w :: args =>
    (kernelPrintint w kind.base kind.sign).map fun bytes =>
      (.num kind.base (kind.value (.long w)) bytes, args)
  | .ptr, .long w :: args => some (.ptr (printptr kernelDigit w), args)
  | .str, .str s :: args => some (.text (printstr s), args)
  | .percent, args => some (.text [chPercent], args)
  | .unknown, args => some (.text [chPercent, c0], args)
  | _, _ => none

def printfLoop (fmt : Bytes) : Nat → Nat → List Arg → Option (List Chunk)
  | 0, _, _ => none
  | fuel + 1, i, args =>
    let cx := charAt fmt i
    if cx = 0 then some []
    else if cx ≠ chPercent then
      (printfLoop fmt fuel (i + 1) args).map (Chunk.text [cx] :: ·)
    else
      let c0 := charAt fmt (i + 1)
      let c := conversionAt fmt (i + 1)
      -- the test for 0 comes before the last branch of the chain
      if c.1 = .unknown ∧ c0 = 0 then some []
      else
        (kernelConv c0 c.1 args).bind fun r =>
          (printfLoop fmt fuel (i + 1 + c.2 + 1) r.2).map (r.1 :: ·)

def printf (fmt : Bytes) (args : List Arg) : Option (List Chunk) :=
  printfLoop fmt (fmt.length + 1) 0 args

/-! ## §4. The user library's vprintf. -/

def userConv (c0 : UInt8) : Conv → List Arg → Option (Chunk × List Arg)
  | .num kind false, .int w :: args =>
    (userPrintint w kind.base kind.sign).map fun bytes =>
      (.num kind.base (kind.value (.int w)) bytes, args)
  | .num kind true, .long w :: args =>
    -- a `uint64` handed to an `int` parameter
    (userPrintint (w.setWidth 32) kind.base kind.sign).map fun bytes =>
      (.num kind.base (kind.value (.long w)) bytes, args)
  | .ptr, .long w :: args => some (.ptr (printptr userDigit w), args)
  | .str, .str s :: args => some (.text (printstr s), args)
  | .percent, args => some (.text [chPercent], args)
  | .unknown, args => some (.text [chPercent, c0], args)
  | _, _ => none

def vprintfLoop (fmt : Bytes) : Nat → Nat → Bool → List Arg → Option (List Chunk)
  | 0, _, _, _ => none
  | fuel + 1, i, state, args =>
    let c0 := charAt fmt i
    if c0 = 0 then some []
    else if state = false then
      if c0 = chPercent then vprintfLoop fmt fuel (i + 1) true args
      else (vprintfLoop fmt fuel (i + 1) false args).map (Chunk.text [c0] :: ·)
    else
      let c := conversionAt fmt i
      (userConv c0 c.1 args).bind fun r =>
        (vprintfLoop fmt fuel (i + c.2 + 1) false r.2).map (r.1 :: ·)

def vprintf (fmt : Bytes) (args : List Arg) : Option (List Chunk) :=
  vprintfLoop fmt (fmt.length + 1) 0 false args

end Xv6.Printf
