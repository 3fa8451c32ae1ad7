/-
  Xv6.Cache.References — who may rely on a buffer.

  `refcnt` counts the pins, the holder of the lock and the processes on their way to it or
  back from it, so a buffer on which anybody relies is not recycled.
-/
import Xv6.Cache.Machine

namespace Xv6.Cache

open Lib Function State List

variable {n : Nat} {D : Type}

/-! ## §1. The list. -/

theorem ring_binit : RingOfAll binit := by
  refine ⟨(List.finRange NBUF).reverse ++ [], Links.IsRing.empty.foldl_insert ?_ ?_, ?_⟩
  · exact nodup_finRange NBUF
  · exact fun _ _ => not_mem_nil
  · intro b
    simp

theorem RingOfAll.moveToFront {k : Links (Fin NBUF)} (h : RingOfAll k) (b : Fin NBUF) :
    RingOfAll ((k.unlink b).insert b) := by
  obtain ⟨l, hring, hall⟩ := h
  obtain ⟨l₁, l₂, rfl⟩ := append_of_mem (hall b)
  have hb : b ∉ l₁ ++ l₂ := (nodup_cons.mp (nodup_middle.mp hring.nodup)).1
  refine ⟨b :: (l₁ ++ l₂), hring.unlink.insert hb, ?_⟩
  intro c
  have hc := hall c
  simp only [mem_append, mem_cons] at hc ⊢
  tauto

/-! ## §2. The references. -/

def Pc.names : Pc → Option (Fin NBUF)
  | .locking b _ | .releasing b => some b
  | _ => none

def Pc.refs (b : Fin NBUF) (l : Pc) : Int := flag (l.names = some b)

def Pc.loading : Pc → Option (Fin NBUF)
  | .check b _ | .reading b _ | .filled b _ => some b
  | _ => none

def Caches (s : State n D) (b : Fin NBUF) (k : Nat) : Prop := s.dev b = ROOTDEV ∧ s.blockno b = k

/-- What process `p` may rely on at `l`. -/
def Bound (s : State n D) (p : Fin n) : Pc → Prop
  | .idle | .releasing _ => True
  | .locking b k => Caches s b k
  | .check b k => Caches s b k ∧ s.lock b = some p ∧ s.modified b = false
  | .reading b k | .filled b k =>
    Caches s b k ∧ s.lock b = some p ∧ s.modified b = false ∧ s.valid b = false
  | .writing b => s.lock b = some p

structure Refs (s : State n D) : Prop where
  ring : RingOfAll s.links
  unique : ∀ b c, s.dev b ≠ 0 → s.dev b = s.dev c → s.blockno b = s.blockno c → b = c
  count : ∀ b, (s.refcnt b : Int) = s.pins b + flag (s.lock b).isSome + ∑ q, (s.pc q).refs b
  bound : ∀ p, Bound s p (s.pc p)
  held : ∀ p b, s.lock b = some p →
    s.dev b = ROOTDEV ∧ (s.valid b = true ∨ (s.pc p).loading = some b)
  clean : ∀ b, s.lock b = none → s.modified b = false

def Act.actor : Act n D → Option (Fin n)
  | .bread p _ | .modify p _ _ | .bwrite p _ | .brelse p _ | .bpin p _ | .bunpin p _
  | .logWrite p _ | .go p => some p
  | .log _ => none

section Refs

variable {s s' : State n D} {a : Act n D} {p q : Fin n} {b c : Fin NBUF} {k : Nat}

theorem refs_sum_nonneg (s : State n D) (b : Fin NBUF) : 0 ≤ ∑ q, (s.pc q).refs b :=
  Finset.sum_nonneg fun _ _ => flag_nonneg _

namespace Refs

section

variable (h : Refs s)

include h

theorem caches_unique (hb : Caches s b k) (hc : Caches s c k) : b = c := by
  apply h.unique b c
  · rw [hb.1]
    decide
  · rw [hb.1, hc.1]
  · rw [hb.2, hc.2]

theorem pos_of_pins (hb : 0 < s.pins b) : 0 < s.refcnt b := by
  have hcount := h.count b
  have hlock := flag_nonneg (s.lock b).isSome
  have hsum := refs_sum_nonneg s b
  omega

theorem pos_of_lock (hb : s.lock b = some p) : 0 < s.refcnt b := by
  have hcount := h.count b
  rw [hb] at hcount
  have hlock : flag (some p).isSome = 1 := rfl
  have hsum := refs_sum_nonneg s b
  omega

theorem pos_of_names (hb : (s.pc p).names = some b) : 0 < s.refcnt b := by
  have hcount := h.count b
  have hlock := flag_nonneg (s.lock b).isSome
  have hsum := le_sum (fun l => flag_nonneg (Pc.names l = some b)) s.pc p
  have hone : flag (Pc.names (s.pc p) = some b) = 1 := by
    rw [hb]
    simp [flag]
  have hle : 1 ≤ ∑ q, (s.pc q).refs b := hone ▸ hsum
  omega

theorem valid_of_lock (hb : s.lock b = some p) (hl : (s.pc p).loading = none) :
    s.valid b = true := by
  rcases (h.held p b hb).2 with hv | hv
  · exact hv
  · rw [hl] at hv
    cases hv

end

end Refs

structure Frame (s s' : State n D) (q : Fin n) : Prop where
  pc : s'.pc q = s.pc q
  lock : ∀ b, s.lock b = some q → s'.lock b = some q ∧ s'.valid b = s.valid b ∧
    s'.modified b = s.modified b ∧ s'.data b = s.data b
  lock_iff : ∀ b, s'.lock b = some q → s.lock b = some q

theorem Move.keeps (h : Move s a s') (hb : 0 < s.refcnt b) :
    s'.dev b = s.dev b ∧ s'.blockno b = s.blockno b := by
  cases h with
  | recycled hpc hnew href =>
    have hne : b ≠ _ := fun he => by
      rw [he, href] at hb
      exact absurd hb (by decide)
    exact ⟨update_of_ne hne _ _, update_of_ne hne _ _⟩
  | _ => exact ⟨rfl, rfl⟩

theorem ne_of_lock (hpq : p ≠ q) (hp : s.lock b = some p) (hq : s.lock c = some q) : c ≠ b := by
  rintro rfl
  exact hpq (Option.some.inj (hp.symm.trans hq))

theorem Move.frame (h : Move s a s') (hr : Refs s) (hq : a.actor ≠ some q) : Frame s s' q := by
  have hne : ∀ {p}, a.actor = some p → p ≠ q := by
    intro p hp he
    exact hq (he ▸ hp)
  have hbound := hr.bound
  refine ⟨?_, ?_, ?_⟩
  · cases h with
    | modify | bpin | bunpin | log | absorbed | logged => rfl
    | _ => exact update_of_ne (hne rfl).symm _ _
  · intro c hc
    cases h with
    | found | cached | uncached | bwrite | released | bpin | bunpin | log =>
      exact ⟨hc, rfl, rfl, rfl⟩
    | recycled hpc hnew href =>
      have hcb : c ≠ _ := fun he => Nat.ne_of_gt (hr.pos_of_lock hc) (he ▸ href)
      exact ⟨hc, update_of_ne hcb _ _, rfl, rfl⟩
    | locked hpc hlock =>
      have hcb : c ≠ _ := fun he => nomatch (he ▸ hc).symm.trans hlock
      exact ⟨(update_of_ne hcb _ _).trans hc, rfl, rfl, rfl⟩
    | @read p b k hpc =>
      have hb := hbound p
      rw [hpc] at hb
      have hcb := ne_of_lock (hne rfl) hb.2.1 hc
      exact ⟨hc, rfl, rfl, update_of_ne hcb _ _⟩
    | @filled p b k hpc =>
      have hb := hbound p
      rw [hpc] at hb
      have hcb := ne_of_lock (hne rfl) hb.2.1 hc
      exact ⟨hc, update_of_ne hcb _ _, rfl, rfl⟩
    | @written p b hpc =>
      have hb := hbound p
      rw [hpc] at hb
      have hcb := ne_of_lock (hne rfl) hb hc
      exact ⟨hc, rfl, update_of_ne hcb _ _, rfl⟩
    | modify d hpc hlock =>
      have hcb := ne_of_lock (hne rfl) hlock hc
      exact ⟨hc, rfl, update_of_ne hcb _ _, update_of_ne hcb _ _⟩
    | absorbed log hpc hlock | logged log hpc hlock =>
      have hcb := ne_of_lock (hne rfl) hlock hc
      exact ⟨hc, rfl, update_of_ne hcb _ _, rfl⟩
    | brelse hpc hlock =>
      have hcb := ne_of_lock (hne rfl) hlock hc
      exact ⟨(update_of_ne hcb _ _).trans hc, rfl, rfl, rfl⟩
  · intro c hc
    cases h with
    | @locked p b k hpc hlock =>
      change update s.lock b (some p) c = some q at hc
      rw [update_apply] at hc
      split at hc
      · exact absurd (Option.some.inj hc) (hne rfl)
      · exact hc
    | @brelse p b hpc hlock =>
      change update s.lock b none c = some q at hc
      rw [update_apply] at hc
      split at hc
      · cases hc
      · exact hc
    | _ => exact hc

/-! ## §3. Every step keeps the references. -/

theorem sum_setPc (s : State n D) (p : Fin n) (l : Pc) (c : Fin NBUF) :
    ∑ q, (update s.pc p l q).refs c = ∑ q, (s.pc q).refs c - (s.pc p).refs c + l.refs c :=
  sum_update (Pc.refs c) s.pc p l

variable {l : Pc}

theorem refs_of_none (h : l.names = none) (c : Fin NBUF) : l.refs c = 0 := by
  simp [Pc.refs, h, flag]

theorem refs_self (h : l.names = some c) : l.refs c = 1 := by
  simp [Pc.refs, h, flag]

theorem refs_of_ne (h : l.names = some b) (hc : c ≠ b) : l.refs c = 0 := by
  simp [Pc.refs, h, flag, hc.symm]

theorem sum_setPc_of_none (h : (s.pc p).names = none) (hl : l.names = none)
    (c : Fin NBUF) : ∑ q, (update s.pc p l q).refs c = ∑ q, (s.pc q).refs c := by
  rw [sum_setPc, refs_of_none h, refs_of_none hl]
  omega

theorem count_move (h : Move s a s') (hr : Refs s) (ha : Allowed s a) (c : Fin NBUF) :
    (s'.refcnt c : Int) = s'.pins c + flag (s'.lock c).isSome + ∑ q, (s'.pc q).refs c := by
  have hcount := hr.count c
  have hidle : ∀ {p}, s.pc p = .idle → (s.pc p).names = none := fun hpc => by rw [hpc]; rfl
  cases h with
  | modify | log | absorbed => exact hcount
  | cached hpc | uncached hpc | read hpc | filled hpc | written hpc | bwrite hpc =>
    have hnone : (s.pc _).names = none := congrArg Pc.names hpc
    exact hcount.trans (congrArg _ (sum_setPc_of_none hnone rfl c).symm)
  | @found p k b hpc =>
    simp only [setPc, ref, sum_setPc, refs_of_none (hidle hpc)]
    by_cases hc : c = b
    · subst hc
      rw [update_self, refs_self rfl]
      omega
    · rw [update_of_ne hc, refs_of_ne rfl hc]
      omega
  | @recycled p k b hpc hnew href =>
    simp only [setPc, recycle, sum_setPc, refs_of_none (hidle hpc)]
    by_cases hc : c = b
    · subst hc
      rw [update_self, refs_self rfl]
      omega
    · rw [update_of_ne hc, refs_of_ne rfl hc]
      omega
  | @locked p b k hpc hlock =>
    simp only [setPc, acquiresleep, sum_setPc, hpc, refs_of_none (l := .check b k) rfl]
    by_cases hc : c = b
    · subst hc
      rw [hlock] at hcount
      rw [update_self, refs_self rfl]
      have hsome : flag (some p).isSome = 1 := rfl
      have hnone : flag (none : Option (Fin n)).isSome = 0 := rfl
      omega
    · rw [update_of_ne hc, refs_of_ne rfl hc]
      omega
  | @brelse p b hpc hlock =>
    simp only [setPc, releasesleep, sum_setPc, refs_of_none (hidle hpc)]
    by_cases hc : c = b
    · subst hc
      rw [hlock] at hcount
      rw [update_self, refs_self rfl]
      have hsome : flag (some p).isSome = 1 := rfl
      have hnone : flag (none : Option (Fin n)).isSome = 0 := rfl
      omega
    · rw [update_of_ne hc, refs_of_ne rfl hc]
      omega
  | @released p b links hpc =>
    have hpos := hr.pos_of_names (p := p) (b := b) (by rw [hpc]; rfl)
    simp only [setPc, unref, sum_setPc, hpc, refs_of_none (l := .idle) rfl]
    by_cases hc : c = b
    · subst hc
      rw [update_self, refs_self rfl]
      omega
    · rw [update_of_ne hc, refs_of_ne rfl hc]
      omega
  | @logged p b | @bpin p b =>
    simp only [logWrite, bpin, ref, if_true]
    by_cases hc : c = b
    · subst hc
      rw [update_self, update_self]
      omega
    · rw [update_of_ne hc, update_of_ne hc]
      exact hcount
  | @bunpin p b hpc =>
    have hpins : 0 < s.pins b := ha
    have hpos := hr.pos_of_pins hpins
    simp only [bunpin, unref]
    by_cases hc : c = b
    · subst hc
      rw [update_self, update_self]
      omega
    · rw [update_of_ne hc, update_of_ne hc]
      exact hcount

theorem bound_frame (h : Move s a s') (hr : Refs s) (hq : a.actor ≠ some q) :
    Bound s' q (s'.pc q) := by
  have hframe := h.frame hr hq
  have hkeeps : ∀ {b k}, 0 < s.refcnt b → Caches s b k → Caches s' b k := by
    intro b k hpos hb
    obtain ⟨hdev, hno⟩ := h.keeps hpos
    exact ⟨hdev.trans hb.1, hno.trans hb.2⟩
  have hbound := hr.bound q
  rw [hframe.pc]
  cases hl : s.pc q with
  | idle | releasing => trivial
  | locking b k =>
    rw [hl] at hbound
    exact hkeeps (hr.pos_of_names (p := q) (by rw [hl]; rfl)) hbound
  | check b k =>
    rw [hl] at hbound
    obtain ⟨hcaches, hlock, hmod⟩ := hbound
    obtain ⟨hlock', -, hmod', -⟩ := hframe.lock b hlock
    exact ⟨hkeeps (hr.pos_of_lock hlock) hcaches, hlock', hmod'.trans hmod⟩
  | reading b k | filled b k =>
    rw [hl] at hbound
    obtain ⟨hcaches, hlock, hmod, hvalid⟩ := hbound
    obtain ⟨hlock', hvalid', hmod', -⟩ := hframe.lock b hlock
    exact ⟨hkeeps (hr.pos_of_lock hlock) hcaches, hlock', hmod'.trans hmod, hvalid'.trans hvalid⟩
  | writing b =>
    rw [hl] at hbound
    exact (hframe.lock b hbound).1

theorem bound_update (h : Bound s' p l) : Bound s' p (update s.pc p l p) := by
  rw [update_self]
  exact h

section

variable (h : Move s a s') (hr : Refs s)

include h hr

theorem bound_own (hp : a.actor = some p) : Bound s' p (s'.pc p) := by
  have hbound := hr.bound p
  cases h with
  | log => cases hp
  | modify d hpc | absorbed log hpc | logged log hpc | bpin hpc | bunpin hpc =>
    cases hp
    show Bound _ p (s.pc p)
    rw [hpc]
    trivial
  | cached | filled | written | brelse | released =>
    cases hp
    exact bound_update trivial
  | found hpc hdev hno =>
    cases hp
    exact bound_update ⟨hdev, hno⟩
  | recycled =>
    cases hp
    exact bound_update ⟨update_self _ _ _, update_self _ _ _⟩
  | locked hpc hlock =>
    cases hp
    rw [hpc] at hbound
    exact bound_update ⟨hbound, update_self _ _ _, hr.clean _ hlock⟩
  | uncached hpc hvalid =>
    cases hp
    rw [hpc] at hbound
    exact bound_update ⟨hbound.1, hbound.2.1, hbound.2.2, hvalid⟩
  | read hpc =>
    cases hp
    rw [hpc] at hbound
    exact bound_update (l := .filled _ _) hbound
  | bwrite hpc hlock =>
    cases hp
    exact bound_update (l := .writing _) hlock

theorem held_frame (hq : a.actor ≠ some q) (hc : s'.lock c = some q) :
    s'.dev c = ROOTDEV ∧ (s'.valid c = true ∨ (s'.pc q).loading = some c) := by
  have hframe := h.frame hr hq
  have hlock := hframe.lock_iff c hc
  obtain ⟨hdev, hvalid⟩ := hr.held q c hlock
  rw [(h.keeps (hr.pos_of_lock hlock)).1, (hframe.lock c hlock).2.1, hframe.pc]
  exact ⟨hdev, hvalid⟩

theorem held_own (hp : a.actor = some p) (hc : s'.lock c = some p) :
    s'.dev c = ROOTDEV ∧ (s'.valid c = true ∨ (s'.pc p).loading = some c) := by
  have hbound := hr.bound p
  have hheld := hr.held p c
  have hvalid : ∀ {l}, s.lock c = some p → s.pc p = l → l.loading = none →
      s.dev c = ROOTDEV ∧ (s.valid c = true ∨ (s'.pc p).loading = some c) := by
    intro l hlock hpc hl
    exact ⟨(hheld hlock).1, .inl (hr.valid_of_lock hlock (by rw [hpc, hl]))⟩
  cases h with
  | log => cases hp
  | found hpc | bwrite hpc | modify d hpc | absorbed log hpc | logged log hpc | bpin hpc
  | bunpin hpc | released links hpc | written hpc =>
    cases hp
    exact hvalid hc hpc rfl
  | @recycled p k b hpc hnew href =>
    cases hp
    have hcb : c ≠ b := fun he => Nat.ne_of_gt (hr.pos_of_lock hc) (he ▸ href)
    have hv := hvalid hc hpc rfl
    show update s.dev b ROOTDEV c = ROOTDEV ∧ (update s.valid b false c = true ∨ _)
    rw [update_of_ne hcb, update_of_ne hcb]
    exact hv
  | @brelse p b hpc hlock =>
    cases hp
    change update s.lock b none c = some p at hc
    rw [update_apply] at hc
    split at hc
    · cases hc
    · exact hvalid hc hpc rfl
  | @locked p b k hpc hlock =>
    cases hp
    by_cases hcb : c = b
    · rw [hpc] at hbound
      refine ⟨hcb ▸ hbound.1, .inr ?_⟩
      show (update s.pc p _ p).loading = some c
      rw [update_self, hcb]
      rfl
    · exact hvalid ((update_of_ne hcb _ _).symm.trans hc) hpc rfl
  | @cached p b k hpc hv =>
    cases hp
    rw [hpc] at hheld
    refine (hheld hc).imp_right fun hor => .inl (hor.elim id fun hb => ?_)
    rw [← Option.some.inj hb]
    exact hv
  | @uncached p b k hpc | @read p b k hpc =>
    cases hp
    rw [hpc] at hheld
    show s.dev c = ROOTDEV ∧ (s.valid c = true ∨ (update s.pc p _ p).loading = some c)
    rw [update_self]
    exact hheld hc
  | @filled p b k hpc =>
    cases hp
    rw [hpc] at hheld
    refine (hheld hc).imp_right fun hor => .inl ?_
    show update s.valid b true c = true
    rw [update_apply]
    split
    · rfl
    · next hcb => exact hor.elim id fun hb => absurd (Option.some.inj hb).symm hcb

theorem clean_move (ha : Allowed s a) (hc : s'.lock c = none) : s'.modified c = false := by
  cases h with
  | @locked p b k hpc hlock =>
    change update s.lock b (some p) c = none at hc
    rw [update_apply] at hc
    split at hc
    · cases hc
    · exact hr.clean c hc
  | @brelse p b hpc hlock =>
    change update s.lock b none c = none at hc
    by_cases hcb : c = b
    · rw [hcb]
      exact ha
    · rw [update_of_ne hcb] at hc
      exact hr.clean c hc
  | @modify p b d hpc hlock =>
    have hcb : c ≠ b := fun he => nomatch (he ▸ hc).symm.trans hlock
    exact (update_of_ne hcb _ _).trans (hr.clean c hc)
  | @written p b | @absorbed p b | @logged p b =>
    show update s.modified b false c = false
    rw [update_apply]
    split
    · rfl
    · exact hr.clean c hc
  | _ => exact hr.clean c hc

theorem unique_move (b c : Fin NBUF) (hb : s'.dev b ≠ 0)
    (hdev : s'.dev b = s'.dev c) (hno : s'.blockno b = s'.blockno c) : b = c := by
  cases h with
  | @recycled p k d hpc hnew href =>
    change update s.dev d ROOTDEV b = update s.dev d ROOTDEV c at hdev
    change update s.blockno d k b = update s.blockno d k c at hno
    by_cases hbd : b = d
    · by_cases hcd : c = d
      · rw [hbd, hcd]
      · rw [hbd, update_self, update_of_ne hcd] at hdev hno
        exact absurd hno.symm (hnew c hdev.symm)
    · by_cases hcd : c = d
      · rw [hcd, update_self, update_of_ne hbd] at hdev hno
        exact absurd hno (hnew b hdev)
      · rw [update_of_ne hbd, update_of_ne hcd] at hdev hno
        exact hr.unique b c (by rwa [← update_of_ne hbd ROOTDEV s.dev]) hdev hno
  | _ => exact hr.unique b c hb hdev hno

end

theorem ring_move (h : Move s a s') (hr : RingOfAll s.links) : RingOfAll s'.links := by
  cases h with
  | released links hpc hlinks =>
    show RingOfAll links
    rcases hlinks with rfl | rfl
    · exact hr
    · exact hr.moveToFront _
  | _ => exact hr

/-- **The references are exact along every run.** -/
theorem refs_move (h : Move s a s') (hr : Refs s) (ha : Allowed s a) : Refs s' where
  ring := ring_move h hr.ring
  unique := unique_move h hr
  count := count_move h hr ha
  bound q := by
    by_cases hq : a.actor = some q
    · exact bound_own h hr hq
    · exact bound_frame h hr hq
  held q c hc := by
    by_cases hq : a.actor = some q
    · exact held_own h hr hq hc
    · exact held_frame h hr hq hc
  clean c hc := clean_move h hr ha hc

theorem refs_start (disk : Nat → D) (data : Fin NBUF → D) (log : LogLayer.Log) :
    Refs (.start disk data log : State n D) where
  ring := ring_binit
  unique _ _ hb := absurd rfl hb
  count b := by
    simp [start, Pc.refs, Pc.names, flag]
  bound _ := trivial
  held _ _ hc := nomatch hc
  clean _ _ := rfl

end Refs

end Xv6.Cache
