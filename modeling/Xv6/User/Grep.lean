/-
  Xv6.User.Grep — the matcher of grep (user/grep.c).

  `parse` reads a pattern as a list of items with or without a star, and whether `$` ends
  it; a pattern has a language in the Kleene algebra of Mathlib.
-/
import Mathlib

namespace Xv6.Grep

open Computability Language

/-! ## §1. The functions. -/

/-- `'*'`, `'.'`, `'$'` and `'^'`. -/
def star : UInt8 := 42
def dot : UInt8 := 46
def dollar : UInt8 := 36
def caret : UInt8 := 94

/-- `c == '.' || c == t`. -/
def accepts (c t : UInt8) : Bool := c = dot ∨ c = t

mutual

def matchhere (re text : List UInt8) : Bool :=
  match re with
  | [] => true
  | c :: re =>
    if re.head? = some star then matchstar c re.tail text
    else if c = dollar ∧ re = [] then text.isEmpty
    else
      match text with
      | [] => false
      | t :: text => accepts c t && matchhere re text
termination_by (re.length, text.length, 0)

/-- Search for `c*re` at the beginning of `text`: a `*` matches zero or more
instances. -/
def matchstar (c : UInt8) (re text : List UInt8) : Bool :=
  matchhere re text ||
    match text with
    | [] => false
    | t :: text => accepts c t && matchstar c re text
termination_by (re.length, text.length, 1)

end

/-- The loop of `match`, which must look at the empty string too. -/
def matchLoop (re : List UInt8) : List UInt8 → Bool
  | [] => matchhere re []
  | t :: text => matchhere re (t :: text) || matchLoop re text

def matchText (re text : List UInt8) : Bool :=
  if re.head? = some caret then matchhere re.tail text else matchLoop re text

/-! ## §2. The language of a pattern. -/

/-- A character, perhaps with a star. -/
structure Item where
  c : UInt8
  starred : Bool

structure Pattern where
  items : List Item
  /-- It ends in `$`. -/
  atEnd : Bool

def Pattern.cons (i : Item) (p : Pattern) : Pattern := { p with items := i :: p.items }

/-- A character with a `*` behind it is starred, a last `$` stands for the end of the text. -/
def parse (re : List UInt8) : Pattern :=
  match re with
  | [] => ⟨[], false⟩
  | c :: re =>
    if re.head? = some star then (parse re.tail).cons ⟨c, true⟩
    else if c = dollar ∧ re = [] then ⟨[], true⟩
    else (parse re).cons ⟨c, false⟩
termination_by re.length

def body (re : List UInt8) : List UInt8 := if re.head? = some caret then re.tail else re

/-- The texts of one character that `c` accepts. -/
def one (c : UInt8) : Language UInt8 := { w | ∃ t, w = [t] ∧ accepts c t = true }

def Item.lang (i : Item) : Language UInt8 := if i.starred then (one i.c)∗ else one i.c

def Pattern.lang (p : Pattern) : Language UInt8 := (p.items.map Item.lang).prod

/-- A prefix of the text, all of it for a pattern that ends in `$`, is in the
language. -/
def Pattern.Matches (p : Pattern) (text : List UInt8) : Prop :=
  ∃ w after, text = w ++ after ∧ w ∈ p.lang ∧ (p.atEnd = true → after = [])

section Language

variable {c : UInt8} {p : Pattern} {text : List UInt8}

theorem mem_one_mul (l : Language UInt8) (w : List UInt8) :
    w ∈ one c * l ↔ ∃ t v, w = t :: v ∧ accepts c t = true ∧ v ∈ l := by
  rw [mem_mul]
  constructor
  · intro h
    obtain ⟨_, ⟨t, rfl, ht⟩, v, hv, rfl⟩ := h
    exact ⟨t, v, rfl, ht, hv⟩
  · intro h
    obtain ⟨t, v, rfl, ht, hv⟩ := h
    exact ⟨[t], ⟨t, rfl, ht⟩, v, hv, rfl⟩

theorem matches_char : (p.cons ⟨c, false⟩).Matches text ↔
    ∃ t rest, text = t :: rest ∧ accepts c t = true ∧ p.Matches rest := by
  have hlang : (p.cons ⟨c, false⟩).lang = one c * p.lang := rfl
  constructor
  · intro h
    obtain ⟨w, after, rfl, hw, hend⟩ := h
    rw [hlang, mem_one_mul] at hw
    obtain ⟨t, v, rfl, ht, hv⟩ := hw
    exact ⟨t, v ++ after, rfl, ht, v, after, rfl, hv, hend⟩
  · intro h
    obtain ⟨t, _, rfl, ht, v, after, rfl, hv, hend⟩ := h
    refine ⟨t :: v, after, rfl, ?_, hend⟩
    rw [hlang, mem_one_mul]
    exact ⟨t, v, rfl, ht, hv⟩

theorem matches_star : (p.cons ⟨c, true⟩).Matches text ↔ p.Matches text ∨
    ∃ t rest, text = t :: rest ∧ accepts c t = true ∧ (p.cons ⟨c, true⟩).Matches rest := by
  have hlang : (p.cons ⟨c, true⟩).lang = p.lang + one c * (p.cons ⟨c, true⟩).lang := by
    show (one c)∗ * p.lang = p.lang + one c * ((one c)∗ * p.lang)
    rw [← mul_assoc]
    nth_rewrite 1 [← one_add_self_mul_kstar_eq_kstar]
    rw [add_mul, one_mul]
  constructor
  · intro h
    obtain ⟨w, after, rfl, hw, hend⟩ := h
    rw [hlang, mem_add, mem_one_mul] at hw
    rcases hw with hw | ⟨t, v, rfl, ht, hv⟩
    · exact .inl ⟨w, after, rfl, hw, hend⟩
    · exact .inr ⟨t, v ++ after, rfl, ht, v, after, rfl, hv, hend⟩
  · intro h
    rcases h with ⟨w, after, rfl, hw, hend⟩ | ⟨t, _, rfl, ht, v, after, rfl, hv, hend⟩
    · refine ⟨w, after, rfl, ?_, hend⟩
      rw [hlang]
      exact .inl hw
    · refine ⟨t :: v, after, rfl, ?_, hend⟩
      rw [hlang, mem_add, mem_one_mul]
      exact .inr ⟨t, v, rfl, ht, hv⟩

end Language

/-! ## §3. The matcher. -/

theorem matchstar_iff {re : List UInt8} (c : UInt8)
    (hre : ∀ text, matchhere re text = true ↔ (parse re).Matches text) (text : List UInt8) :
    matchstar c re text = true ↔ ((parse re).cons ⟨c, true⟩).Matches text := by
  induction text with
  | nil =>
    rw [matchstar, matches_star, Bool.or_false, hre]
    simp
  | cons t text ih =>
    rw [matchstar, matches_star, Bool.or_eq_true, hre, Bool.and_eq_true, ih]
    simp [and_assoc]

/-- By induction on the length of the pattern: a starred item takes two
characters of it. -/
theorem matchhere_iff (n : Nat) : ∀ re text, re.length < n →
    (matchhere re text = true ↔ (parse re).Matches text) := by
  induction n with
  | zero => exact fun _ _ hn => absurd hn (Nat.not_lt_zero _)
  | succ n ih =>
    intro re text hn
    rw [matchhere.eq_def, parse.eq_def]
    cases re with
    | nil => simp [Pattern.Matches, Pattern.lang]
    | cons c re =>
      have hlen : re.length < n := Nat.lt_of_succ_lt_succ hn
      dsimp only
      split
      · have htail : re.tail.length < n := by
          rw [List.length_tail]
          omega
        exact matchstar_iff c (fun text => ih _ text htail) text
      · split
        · simp [Pattern.Matches, Pattern.lang]
        · rw [matches_char]
          cases text with
          | nil => simp
          | cons t text => simp [ih re text hlen, and_assoc]

theorem matchLoop_iff (re text : List UInt8) :
    matchLoop re text = true ↔ ∃ before rest, text = before ++ rest ∧ (parse re).Matches rest := by
  have hhere : ∀ text, matchhere re text = true ↔ (parse re).Matches text :=
    fun text => matchhere_iff _ re text (Nat.lt_succ_self _)
  induction text with
  | nil => simp [matchLoop, hhere]
  | cons t text ih =>
    simp only [matchLoop, Bool.or_eq_true, hhere, ih]
    constructor
    · intro h
      rcases h with h | ⟨before, rest, rfl, h⟩
      · exact ⟨[], t :: text, rfl, h⟩
      · exact ⟨t :: before, rest, rfl, h⟩
    · intro h
      obtain ⟨before, rest, heq, h⟩ := h
      cases before with
      | nil =>
        obtain rfl : t :: text = rest := heq
        exact .inl h
      | cons _ before =>
        obtain ⟨rfl, rfl⟩ := List.cons.inj heq
        exact .inr ⟨before, rest, rfl, h⟩

/-- **`match` decides the language of its pattern**: some part of the text is in it, at the start if
the pattern starts with `^`, at the end if it ends in a `$` without a star. -/
theorem matchText_iff (re text : List UInt8) :
    matchText re text = true ↔
      ∃ before w after, text = before ++ w ++ after ∧ w ∈ (parse (body re)).lang ∧
        (re.head? = some caret → before = []) ∧ ((parse (body re)).atEnd = true → after = []) := by
  unfold matchText body
  split
  · next hcaret =>
    rw [matchhere_iff _ _ _ (Nat.lt_succ_self _)]
    constructor
    · intro h
      obtain ⟨w, after, rfl, hw, hend⟩ := h
      exact ⟨[], w, after, rfl, hw, fun _ => rfl, hend⟩
    · intro h
      obtain ⟨before, w, after, rfl, hw, hbefore, hend⟩ := h
      rw [hbefore hcaret]
      exact ⟨w, after, rfl, hw, hend⟩
  · next hcaret =>
    rw [matchLoop_iff]
    constructor
    · intro h
      obtain ⟨before, _, rfl, w, after, rfl, hw, hend⟩ := h
      exact ⟨before, w, after, (List.append_assoc ..).symm, hw, fun h => absurd h hcaret, hend⟩
    · intro h
      obtain ⟨before, w, after, rfl, hw, -, hend⟩ := h
      exact ⟨before, w ++ after, List.append_assoc .., w, after, rfl, hw, hend⟩

end Xv6.Grep
