/-
  Xv6.Proc.ExecStack — the arguments on the stack of a new program.

  `pushStack` of Xv6.Proc.Exec with the bytes: which calls of copyout it makes, and
  what the user's memory holds after them.
-/
import Xv6.Proc.Exec
import Xv6.Lib.Bytes

namespace Xv6.ExecStack

open Lib List

/-! ## §1. The pushes with their bytes. -/

abbrev Copy := Nat × List UInt8

def pushStrings (pagetable : Pagetable) (stackbase : Nat) :
    List (List UInt8) → Nat → Nat → List Copy × Option Nat
  | [], _, sp => ([], some sp)
  | s :: rest, argc, sp =>
    if MAXARG ≤ argc then ([], none)
    else
      let sp := pushDown sp (s.length + 1)
      if sp < stackbase then ([], none)
      else if copyoutOk pagetable (s.length + 1) sp (s.length + 1) then
        let r := pushStrings pagetable stackbase rest (argc + 1) sp
        ((sp, s ++ [0]) :: r.1, r.2)
      else ([(sp, s ++ [0])], none)

def words (l : List Nat) : List UInt8 :=
  (List.range (8 * l.length)).map fun i => byteOf (l.getD (i / 8) 0) (i % 8)

/-- `ustack` has the addresses of the strings and a 0. -/
def layStack (pagetable : Pagetable) (sz : Nat) (argv : List (List UInt8)) :
    List Copy × Option (Nat × Nat) :=
  let stackbase := sz - USERSTACK * PGSIZE
  match pushStrings pagetable stackbase argv 0 sz with
  | (copies, none) => (copies, none)
  | (copies, some sp) =>
    let argc := copies.length
    let sp := pushDown sp ((argc + 1) * 8)
    if sp < stackbase then (copies, none)
    else
      (copies ++ [(sp, words (copies.map Prod.fst ++ [0]))],
        if copyoutOk pagetable ((argc + 1) * 8) sp ((argc + 1) * 8) then some (argc, sp) else none)

def copied (mem : Bytes) (copies : List Copy) : Bytes :=
  copies.foldl (fun m c => overlay m c.1 c.2.length fun i => c.2.getD i 0) mem

/-! ## §2. Where the copies lie. -/

structure Laid (base top : Nat) (l : List Copy) : Prop where
  inside : ∀ c ∈ l, base ≤ c.1 ∧ c.1 + c.2.length ≤ top ∧ c.1 % 16 = 0
  apart : l.Pairwise fun a b => b.1 + b.2.length ≤ a.1

section Laid

variable {base top : Nat} {l : List Copy} {c : Copy} {mem : Bytes}

theorem Laid.nil : Laid base top [] := ⟨by simp, .nil⟩

theorem Laid.cons (h : Laid base c.1 l) (hbase : base ≤ c.1) (htop : c.1 + c.2.length ≤ top)
    (hal : c.1 % 16 = 0) : Laid base top (c :: l) := by
  refine ⟨fun d hd => ?_, pairwise_cons.mpr ⟨fun d hd => (h.inside d hd).2.1, h.apart⟩⟩
  rcases mem_cons.mp hd with rfl | hd
  · exact ⟨hbase, htop, hal⟩
  · have := h.inside d hd
    omega

theorem Laid.concat (h : Laid base top l) {bot : Nat} (hl : ∀ d ∈ l, bot ≤ d.1)
    (hbase : base ≤ c.1) (hbot : c.1 + c.2.length ≤ bot) (htop : bot ≤ top) (hal : c.1 % 16 = 0) :
    Laid base top (l ++ [c]) := by
  refine ⟨fun d hd => ?_, pairwise_append.mpr ⟨h.apart, pairwise_singleton _ _, ?_⟩⟩
  · rcases mem_append.mp hd with hd | hd
    · exact h.inside d hd
    · rw [mem_singleton.mp hd]
      exact ⟨hbase, hbot.trans htop, hal⟩
  · intro d hd e he
    rw [mem_singleton.mp he]
    exact hbot.trans (hl d hd)

theorem copied_other (l : List Copy) (mem : Bytes) {x : Nat}
    (h : ∀ c ∈ l, x < c.1 ∨ c.1 + c.2.length ≤ x) : copied mem l x = mem x := by
  induction l generalizing mem with
  | nil => rfl
  | cons c l ih =>
    have hc := h c mem_cons_self
    refine (ih _ fun d hd => h d (mem_cons_of_mem c hd)).trans ?_
    exact overlay_of_notMem _ _ (by omega)

theorem Laid.copied_mem (h : Laid base top l) (mem : Bytes) (hc : c ∈ l) {i : Nat}
    (hi : i < c.2.length) : copied mem l (c.1 + i) = c.2.getD i 0 := by
  obtain ⟨-, hapart⟩ := h
  induction l generalizing mem with
  | nil => cases hc
  | cons d l ih =>
    obtain ⟨hd, hapart⟩ := pairwise_cons.mp hapart
    rcases mem_cons.mp hc with rfl | hc
    · refine (copied_other l _ fun e he => .inr ?_).trans (overlay_add _ _ hi)
      have := hd e he
      omega
    · exact ih _ hc hapart

end Laid

/-! ## §3. The loop. -/

def ceil16 (n : Nat) : Nat := (n + 15) / 16 * 16

theorem pushDown_spec {sp n : Nat} (hsp : sp % 16 = 0) (hle : n ≤ sp) (hlt : sp < 2 ^ 64) :
    pushDown sp n + ceil16 n = sp ∧ pushDown sp n + n ≤ sp ∧ pushDown sp n % 16 = 0 := by
  unfold pushDown ceil16
  dsimp only
  omega

def stringSpace (argv : List (List UInt8)) : Nat := (argv.map fun s => ceil16 (s.length + 1)).sum

theorem pushStrings_spec {pt : Pagetable} {base : Nat} (hbase : PGSIZE ≤ base)
    (argv : List (List UInt8)) (hlen : ∀ s ∈ argv, s.length < PGSIZE) (argc : Nat) {sp : Nat}
    (hsp : sp % 16 = 0) (hle : base ≤ sp) (hmax : sp < 2 ^ 64)
    {l : List Copy} {r : Option Nat} (h : pushStrings pt base argv argc sp = (l, r)) :
    Laid base sp l ∧ ∀ sp' ∈ r, sp' % 16 = 0 ∧ base ≤ sp' ∧ sp' + stringSpace argv = sp ∧
      (∀ c ∈ l, sp' ≤ c.1) ∧ l.map Prod.snd = argv.map (· ++ [0]) := by
  induction argv generalizing argc sp l with
  | nil =>
    cases h
    refine ⟨.nil, fun sp' hr => ?_⟩
    cases hr
    exact ⟨hsp, hle, rfl, by simp, rfl⟩
  | cons s rest ih =>
    have hs := hlen s mem_cons_self
    have hpush := pushDown_spec (n := s.length + 1) hsp (by omega) hmax
    have hsum : stringSpace (s :: rest) = ceil16 (s.length + 1) + stringSpace rest := rfl
    have hcopy : pushDown sp (s.length + 1) + (s ++ [0]).length ≤ sp := by
      rw [length_append]
      exact hpush.2.1
    unfold pushStrings at h
    dsimp only at h
    split_ifs at h with hargc hlow hok
    · cases h
      exact ⟨.nil, by simp⟩
    · cases h
      exact ⟨.nil, by simp⟩
    · cases h
      obtain ⟨hlaid, hsome⟩ := ih (fun t ht => hlen t (mem_cons_of_mem s ht)) (argc + 1)
        hpush.2.2 (by omega) (by omega) rfl
      refine ⟨hlaid.cons (by omega) hcopy hpush.2.2, fun sp' hr => ?_⟩
      obtain ⟨hal, hge, heq, hall, hstr⟩ := hsome sp' hr
      refine ⟨hal, hge, by omega, fun c hc => ?_, ?_⟩
      · rcases mem_cons.mp hc with rfl | hc
        · show sp' ≤ pushDown sp (s.length + 1)
          omega
        · exact hall c hc
      · rw [map_cons, map_cons, hstr]
    · cases h
      exact ⟨Laid.nil.cons (by omega) hcopy hpush.2.2, by simp⟩

theorem pushArgs_eq (pt : Pagetable) (base : Nat) (argv : List (List UInt8)) (argc sp : Nat) :
    pushArgs pt base argv argc sp =
      (pushStrings pt base argv argc sp).2.map fun sp' => (argc + argv.length, sp') := by
  induction argv generalizing argc sp with
  | nil => rfl
  | cons s rest ih =>
    unfold pushArgs pushStrings
    dsimp only
    split_ifs
    · rfl
    · rfl
    · rw [ih, length_cons, Nat.add_right_comm]
      rfl
    · rfl

/-! ## §4. The layout. -/

/-- The 64-bit word at `a`. -/
def Word (m : Bytes) (a w : Nat) : Prop := ∀ k < 8, m (a + k) = byteOf w k

/-- The arguments of main, from `sp` on. -/
structure ArgsAt (m : Bytes) (argv : List (List UInt8)) (base top sp : Nat) : Prop where
  aligned : sp % 16 = 0
  base : base ≤ sp
  last : Word m (sp + 8 * argv.length) 0
  strings : ∃ addr : Nat → Nat, ∀ i < argv.length,
    Word m (sp + 8 * i) (addr i) ∧ addr i % 16 = 0 ∧
    (∀ j ≤ (argv.getD i []).length, m (addr i + j) = (argv.getD i []).getD j 0) ∧
    sp + 8 * (argv.length + 1) ≤ addr i ∧ addr i + (argv.getD i []).length < top ∧
    ∀ j < i, addr i + (argv.getD i []).length < addr j

theorem Laid.argsAt {base top sp : Nat} {argv : List (List UInt8)} {l : List Copy} {w : List UInt8}
    (h : Laid base top (l ++ [(sp, w)])) (hw : w = words (l.map Prod.fst ++ [0]))
    (hl : l.map Prod.snd = argv.map (· ++ [0])) (hlen : l.length = argv.length) (mem : Bytes) :
    ArgsAt (copied mem (l ++ [(sp, w)])) argv base top sp := by
  have hlast := h.inside (sp, w) mem_concat_self
  obtain ⟨hpair, -, hover⟩ := pairwise_append.mp h.apart
  have hsize : w.length = 8 * (argv.length + 1) := by simp [hw, words, hlen]
  have hword : ∀ i ≤ argv.length, Word (copied mem (l ++ [(sp, w)])) (sp + 8 * i)
      ((l.map Prod.fst ++ [0]).getD i 0) := by
    intro i hi k hk
    have hlt : 8 * i + k < w.length := by omega
    have hi' : (8 * i + k) / 8 = i ∧ (8 * i + k) % 8 = k := by omega
    rw [Nat.add_assoc]
    refine (h.copied_mem mem mem_concat_self hlt).trans ?_
    rw [hw] at hlt ⊢
    unfold words at hlt ⊢
    rw [getD_eq_getElem _ _ hlt, getElem_map, getElem_range, hi'.1, hi'.2]
  have haddr : ∀ j (hj : j < l.length), (l.map Prod.fst).getD j 0 = l[j].1 :=
    fun j hj => by simp [hj]
  refine ⟨hlast.2.2, hlast.1, ?_, fun i => (l.map Prod.fst).getD i 0, fun i hi => ?_⟩
  · have hend := hword argv.length le_rfl
    rwa [getD_append_right _ _ _ _ (by simp [hlen]), length_map, hlen,
      Nat.sub_self] at hend
  · have hil : i < l.length := by omega
    have hmem : l[i] ∈ l ++ [(sp, w)] := mem_append_left _ (getElem_mem hil)
    have hstr : l[i].2 = argv.getD i [] ++ [0] := by
      have := congrArg (fun x => x.getD i []) hl
      simpa [hil, hi] using this
    have hlen' : l[i].2.length = (argv.getD i []).length + 1 := by
      rw [hstr, length_append]
      rfl
    have hin := h.inside _ hmem
    dsimp only
    refine ⟨?_, ?_⟩
    · rw [← getD_append _ [0] _ _ (by simpa using hil)]
      exact hword i hi.le
    rw [haddr i hil]
    refine ⟨hin.2.2, fun j hj => ?_, ?_, by omega, fun j hj => ?_⟩
    · rw [h.copied_mem mem hmem (by omega), hstr]
      rcases hj.lt_or_eq with hj | rfl
      · exact getD_append _ _ _ _ hj
      · rw [getD_append_right _ _ _ _ le_rfl, getD_eq_default (argv.getD i []) _ le_rfl,
          Nat.sub_self]
        rfl
    · have hbelow := hover _ (getElem_mem hil) _ (mem_singleton_self _)
      dsimp only at hbelow
      omega
    · have hbelow := pairwise_iff_getElem.mp hpair j i (by omega) hil hj
      rw [haddr j (by omega)]
      omega

/-- **exec lays out its arguments.**  `sz` is the end of the stack page, as uvmalloc has
returned it. -/
theorem exec_lays_out_args (pt : Pagetable) {sz : Nat} (hsz : sz % PGSIZE = 0)
    (hlow : 2 * PGSIZE ≤ sz) (htop : sz ≤ TRAPFRAME) {argv : List (List UInt8)}
    (hargc : argv.length < MAXARG) (hlen : ∀ s ∈ argv, s.length < PGSIZE) :
    pushStack pt sz argv = (layStack pt sz argv).2 ∧
    (∀ c ∈ (layStack pt sz argv).1, sz - PGSIZE ≤ c.1 ∧ c.1 + c.2.length ≤ sz) ∧
    ∀ argc sp, pushStack pt sz argv = some (argc, sp) → argc = argv.length ∧
      stringSpace argv + ceil16 ((argc + 1) * 8) ≤ PGSIZE ∧
      ∀ mem, ArgsAt (copied mem (layStack pt sz argv).1) argv (sz - PGSIZE) sz sp := by
  have hT : TRAPFRAME = 274877898752 := rfl
  have hP : PGSIZE = 4096 := rfl
  have hM : MAXARG = 32 := rfl
  have hU : USERSTACK * PGSIZE = PGSIZE := rfl
  obtain ⟨l, r, h⟩ : ∃ l r, pushStrings pt (sz - PGSIZE) argv 0 sz = (l, r) := ⟨_, _, rfl⟩
  obtain ⟨hlaid, hsome⟩ := pushStrings_spec (by omega) argv hlen 0 (by rw [hP] at hsz; omega)
    (by omega) (by omega) h
  obtain ⟨copies, res, hlay⟩ : ∃ copies res, layStack pt sz argv = (copies, res) := ⟨_, _, rfl⟩
  suffices hboth : pushStack pt sz argv = res ∧ Laid (sz - PGSIZE) sz copies ∧
      ∀ a ∈ res, a.1 = argv.length ∧ stringSpace argv + ceil16 ((a.1 + 1) * 8) ≤ PGSIZE ∧
        ∀ mem, ArgsAt (copied mem copies) argv (sz - PGSIZE) sz a.2 by
    rw [hboth.1, hlay]
    exact ⟨rfl, fun c hc => ⟨(hboth.2.1.inside c hc).1, (hboth.2.1.inside c hc).2.1⟩,
      fun argc sp ha => hboth.2.2 (argc, sp) ha⟩
  unfold layStack at hlay
  unfold pushStack
  dsimp only at hlay ⊢
  rw [pushArgs_eq, hU, h]
  rw [hU, h] at hlay
  cases r with
  | none =>
    cases hlay
    exact ⟨rfl, hlaid, by simp⟩
  | some sp =>
    obtain ⟨hal, hge, heq, hall, hl⟩ := hsome sp rfl
    have hll : l.length = argv.length := by
      have := congrArg List.length hl
      rwa [List.length_map, List.length_map] at this
    have hpush := pushDown_spec (n := (argv.length + 1) * 8) hal (by omega) (by omega)
    have hsize : (words (l.map Prod.fst ++ [0])).length = (argv.length + 1) * 8 := by
      simp [words, hll, Nat.mul_comm]
    dsimp only [Option.map_some] at hlay ⊢
    rw [hll] at hlay
    rw [Nat.zero_add]
    split_ifs at hlay ⊢ with hfull hok
    · cases hlay
      exact ⟨rfl, hlaid, by simp⟩
    all_goals
      cases hlay
      have hlaid' := hlaid.concat (c := (pushDown sp ((argv.length + 1) * 8),
        words (l.map Prod.fst ++ [0]))) hall (by dsimp only; omega) (by dsimp only; omega)
          (by omega) hpush.2.2
      refine ⟨rfl, hlaid', ?_⟩
    · rintro _ ⟨⟩
      refine ⟨rfl, ?_, fun mem => hlaid'.argsAt rfl hl hll mem⟩
      dsimp only
      omega
    · simp

/-- A stack page at 4096. -/
def stackTable : Pagetable where
  page := 0x80001000
  slot _ := some
    { page := 0x80002000
      slot _ := some
        { page := 0x80003000
          slot i := if i.val = 1 then some ⟨0x80004000, PTE_W ||| PTE_U⟩ else none } }

theorem exec_lays_out_echo_hi : pushStack stackTable 8192 [[101], [104, 105]] = some (2, 8128) ∧
    ∀ mem, ArgsAt (copied mem (layStack stackTable 8192 [[101], [104, 105]]).1)
      [[101], [104, 105]] 4096 8192 8128 := by
  have hrun : pushStack stackTable 8192 [[101], [104, 105]] = some (2, 8128) := by rfl
  have hargc : ([[101], [104, 105]] : List (List UInt8)).length < MAXARG := by decide
  have hlaid := exec_lays_out_args stackTable (show 8192 % PGSIZE = 0 by decide) (by decide)
    (by decide) hargc (by decide)
  exact ⟨hrun, (hlaid.2.2 2 8128 hrun).2.2⟩

end Xv6.ExecStack
