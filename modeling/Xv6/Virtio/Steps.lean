/-
  Xv6.Virtio.Steps — every step of the driver and of the device keeps the invariant.
-/
import Xv6.Virtio.Invariant

namespace Xv6.Virtio

open Lib Lib.Monitor Function List Idx

/-! ## §1. Chains. -/

section Chains

variable {B : Type} {desc desc' : Nat → Desc B} {idx : Idx} {i : Nat}

theorem Chain.congr {l : List Nat} (h : Chain desc l)
    (heq : ∀ i ∈ l, desc' i = desc i) : Chain desc' l := by
  induction l with
  | nil => trivial
  | cons i l ih =>
    cases l with
    | nil =>
      show (desc' i).hasNext = false
      rw [heq i mem_cons_self]
      exact h
    | cons j l =>
      show (desc' i).hasNext = true ∧ (desc' i).next = j ∧ Chain desc' (j :: l)
      rw [heq i mem_cons_self]
      exact ⟨h.1, h.2.1, ih h.2.2 fun k hk => heq k (mem_cons_of_mem i hk)⟩

theorem Idx.ne_of_nodup (h : idx.list.Nodup) :
    idx.head ≠ idx.data ∧ idx.head ≠ idx.status ∧ idx.data ≠ idx.status := by
  simp only [Idx.list, nodup_cons, mem_cons, not_mem_nil, or_false, not_or] at h
  exact ⟨h.1.1, h.1.2, h.2.1⟩

theorem Idx.from_data (h : idx.list.Nodup) : idx.from idx.data = [idx.data, idx.status] := by
  rw [Idx.from, if_neg (ne_of_nodup h).1.symm, if_pos rfl]

theorem Idx.from_status (h : idx.list.Nodup) : idx.from idx.status = [idx.status] := by
  rw [Idx.from, if_neg (ne_of_nodup h).2.1.symm, if_neg (ne_of_nodup h).2.2.symm, if_pos rfl]

theorem Unlinking.next (h : Unlinking desc idx i) (b : B) :
    ∃ next, (if (desc i).hasNext then some (desc i).next else none) = next ∧
      idx.from i = i :: (Pc.rFreeWake b idx next).owned ∧
      ∀ j ∈ next, Unlinking desc idx j := by
  have hmem := h.mem
  simp only [Idx.list, mem_cons, not_mem_nil, or_false] at hmem
  have hchain := h.chain
  rcases hmem with rfl | rfl | rfl
  · rw [Idx.from, if_pos rfl] at hchain
    refine ⟨some idx.data, ?_, ?_, ?_⟩
    · rw [hchain.1, if_pos rfl, hchain.2.1]
    · show idx.from idx.head = idx.head :: idx.from idx.data
      rw [from_data h.nodup, Idx.from, if_pos rfl]
      rfl
    · intro j hj
      cases hj
      refine ⟨h.nodup, mem_cons_of_mem _ mem_cons_self, ?_⟩
      rw [from_data h.nodup]
      exact hchain.2.2
  · rw [from_data h.nodup] at hchain
    refine ⟨some idx.status, ?_, ?_, ?_⟩
    · rw [hchain.1, if_pos rfl, hchain.2.1]
    · show idx.from idx.data = idx.data :: idx.from idx.status
      rw [from_data h.nodup, from_status h.nodup]
    · intro j hj
      cases hj
      refine ⟨h.nodup, mem_cons_of_mem _ (mem_cons_of_mem _ mem_cons_self), ?_⟩
      rw [from_status h.nodup]
      exact hchain.2.2
  · rw [from_status h.nodup] at hchain
    refine ⟨none, ?_, from_status h.nodup, nofun⟩
    rw [show (desc idx.status).hasNext = false from hchain]
    rfl

theorem Unlinking.mem_from (h : Unlinking desc idx i) (b : B) : i ∈ idx.from i := by
  obtain ⟨next, _, hfrom, _⟩ := h.next b
  rw [hfrom]
  exact mem_cons_self

end Chains

/-! ## §2. Owners of descriptors. -/

section Busy

variable {B : Type} {x x' : Disk B} {i j : Nat}

theorem busy_take (hj : j < NUM) (hfree : x.free j = true) :
    flag ((x.take j).busy i) - flag (x.busy i) = if j = i then 1 else 0 := by
  by_cases hi : j = i
  · subst hi
    simp [Disk.busy, Disk.take, hj, hfree, flag]
  · have hsame : (x.take j).busy i = x.busy i := by
      simp [Disk.busy, Disk.take, update_of_ne (Ne.symm hi)]
    rw [hsame, if_neg hi, Int.sub_self]

theorem busy_freeDesc (h : x.freeDesc j = .ok x') :
    flag (x'.busy i) - flag (x.busy i) = -(if j = i then 1 else 0) := by
  obtain ⟨hj, hfree, rfl⟩ := freeDesc_eq_ok h
  by_cases hi : j = i
  · subst hi
    simp [Disk.busy, hj, hfree, flag]
  · rw [if_neg hi]
    simp [Disk.busy, update_of_ne (Ne.symm hi)]

theorem count_cons_sub (l : List Nat) :
    (((j :: l).count i : Nat) : Int) - (l.count i : Nat) = if j = i then 1 else 0 := by
  rw [count_cons]
  by_cases hi : j = i
  · simp [hi]
  · simp [hi]

theorem count_concat_sub (l : List Nat) :
    (((l ++ [j]).count i : Nat) : Int) - (l.count i : Nat) = if j = i then 1 else 0 := by
  rw [(perm_append_singleton j l).count_eq]
  exact count_cons_sub l

end Busy

/-! ## §3. What a process may rely on. -/

structure Facts {B : Type} (x : Disk B) (l : Pc B) : Prop where
  busy : ∀ i ∈ l.owned, i < NUM ∧ x.free i = false
  nodup : l.owned.Nodup
  locked : ∀ b, l.buf = some b → x.locked b = true
  idle : ∀ i ∈ l.owned, l.request = none → x.stage i = .idle
  asked : ∀ h, l.request = some h → x.stage h ≠ .idle
  clears : ∀ h, l.clears = some h → x.stage h = .cleared
  posted : ∀ id, l = .iClear id → x.stage id = .posted
  recorded : ∀ id, l = .iClear id → (x.info id).b ≠ none
  settled : ∀ b idx, l = .rWait b idx → x.stage idx.head ≠ .cleared
  assert : l.assert x

theorem Rings.front {B : Type} {x : Disk B} (h : Rings x) (hne : x.usedIdx ≠ x.used.idx) :
    (x.stage x.usedFront).inUsed = true := by
  obtain ⟨l, hholds, htracks⟩ := h.used
  cases l with
  | nil => exact absurd ((hholds.empty_iff (by decide)).mpr rfl) hne
  | cons id l =>
    have hid : x.usedFront = id := hholds.pop.1
    rw [hid, ← htracks.mem id]
    exact mem_cons_self

section Completion

variable {n : Nat} {B : Type} [DecidableEq B] {s : State n B} {p : Fin n}

section

variable (h : Inv s) (hm : s.mode p = .running)

include h hm

theorem Inv.posted {id : Nat} (hl : s.pc p = .iClear id) : s.shared.stage id = .posted := by
  have hassert := h.asserts p
  rw [hl] at hassert
  obtain ⟨hne, hfront⟩ := hassert
  have hused := h.rings.front hne
  rw [hfront] at hused
  have hnot := h.not_cleared hm (by rw [hl]; rfl) (by rw [hl]; rfl) id
  cases hst : s.shared.stage id <;> rw [hst] at hused hnot <;>
    first | rfl | exact absurd rfl hnot | cases hused

theorem Inv.completes {id : Nat}
    (hl : s.pc p = .iClear id) : ∃ q b idx, s.pc q = .rSleep b idx ∧ idx.head = id ∧
      (s.shared.info id).b = some b := by
  obtain ⟨q, hq⟩ := h.waiter (j := id) (by rw [h.posted hm hl]; nofun)
  have hqp : q ≠ p := by
    intro he
    rw [he, hl] at hq
    cases hq
  obtain ⟨b, idx, hpc, hhead⟩ := h.sleeper hm (by rw [hl]; rfl) hqp hq
  have hasked : Asked s.shared b idx := by
    have := h.asserts q
    rwa [hpc] at this
  refine ⟨q, b, idx, hpc, hhead, ?_⟩
  rw [← hhead]
  exact hasked.info

theorem Inv.facts : Facts s.shared (s.pc p) where
  busy i hi := h.busy_of_owned hi
  nodup := h.owned_nodup p
  locked b hb := of_flag_sum (t := fun l : Pc B => l.buf == some b) (h.users b)
    (beq_iff_eq.mpr hb)
  idle i hi hno := h.stage_idle hi hno
  asked j hj := h.stage_of_request hj
  clears j hj := h.stage_of_clears hj
  posted id hl := h.posted hm hl
  recorded id hl := by
    obtain ⟨q, b, idx, _, _, hb⟩ := h.completes hm hl
    rw [hb]
    nofun
  settled b idx hl := h.not_cleared hm (by rw [hl]; rfl) (by rw [hl]; rfl) _
  assert := h.asserts p

end

end Completion

section Access

variable {B : Type} [DecidableEq B] {x x' : Disk B} {l l' : Pc B}

section

variable (h : Access x l x' l') (hf : Facts x l)

include h hf

theorem Access.no_panic {e : Panic} (he : l' = .panicked e) : l.buf = none := by
  have hbusy := hf.busy
  have hassert := hf.assert
  cases h with
  | undoPanics hx =>
    obtain ⟨hlt, hfree⟩ := hbusy _ mem_cons_self
    exact absurd hx (freeDesc_ne_error hlt hfree)
  | @freePanics b idx j e hx =>
    obtain ⟨hlt, hfree⟩ := hbusy j (Unlinking.mem_from hassert b)
    exact absurd hx (freeDesc_ne_error hlt hfree)
  | status | null | panicked => rfl
  | _ => cases he

theorem owners_access (i : Nat) : flag (x'.busy i) - flag (x.busy i) = l'.count i - l.count i := by
  -- most accesses leave both sides alone
  have hsame : x'.busy i = x.busy i → l'.owned = l.owned →
      flag (x'.busy i) - flag (x.busy i) = l'.count i - l.count i := by
    intro hx hl
    rw [Pc.count, Pc.count, hx, hl, Int.sub_self, Int.sub_self]
  have hpanic := fun e => h.no_panic hf (e := e)
  have hassert := hf.assert
  cases h with
  | @alloc b write sector got j hj =>
    obtain ⟨hlt, hfree⟩ := allocDesc_eq_some hj
    rw [busy_take hlt hfree]
    exact (count_concat_sub got).symm
  | @allocLast b write sector i₀ i₁ j hj =>
    obtain ⟨hlt, hfree⟩ := allocDesc_eq_some hj
    rw [busy_take hlt hfree]
    exact (count_concat_sub [i₀, i₁]).symm
  | @undo _ b write sector j todo hx =>
    have hcount := count_cons_sub (i := i) (j := j) todo
    rw [busy_freeDesc hx, ← hcount]
    exact Int.neg_sub _ _
  | @forget b idx =>
    apply hsame rfl
    show idx.from idx.head = idx.list
    rw [Idx.from, if_pos rfl]
  | @free _ b idx j hx =>
    obtain ⟨next, hnext, hfrom, _⟩ := Unlinking.next hassert b
    have hcount := count_cons_sub (i := i) (j := j) (Pc.rFreeWake b idx next).owned
    rw [busy_freeDesc hx, ← hcount, ← hfrom, hnext]
    exact Int.neg_sub _ _
  | undoPanics | freePanics => cases hpanic _ rfl
  | _ => exact hsame rfl rfl

theorem users_access (b : B) :
    flag (x'.locked b) - flag (x.locked b) = flag (l'.buf == some b) - flag (l.buf == some b) := by
  have hpanic := fun e => h.no_panic hf (e := e)
  have hlocked := hf.locked
  cases h with
  | @call b₀ write sector hfree =>
    by_cases hb : b = b₀
    · subst hb
      simp [hfree, flag, Pc.buf]
    · simp [update_of_ne hb, Pc.buf, Ne.symm hb, flag]
  | @relse b₀ =>
    by_cases hb : b = b₀
    · subst hb
      simp [hlocked b rfl, flag, Pc.buf]
    · simp [update_of_ne hb, Pc.buf, Ne.symm hb, flag]
  | undoPanics | freePanics => cases hpanic _ rfl
  | undo hx | free hx =>
    obtain ⟨_, _, rfl⟩ := freeDesc_eq_ok hx
    exact (Int.sub_self _).trans (Int.sub_self _).symm
  | _ => exact (Int.sub_self _).trans (Int.sub_self _).symm

end

theorem flag_update (is : Stage → Bool) {stage : Nat → Stage} {j : Nat} {st : Stage}
    {r r' : Option Nat}
    (hj : flag (is st) - flag (is (stage j)) = flag (r' == some j) - flag (r == some j))
    (hother : ∀ h ≠ j, (r' == some h) = (r == some h)) (h : Nat) :
    flag (is (update stage j st h)) - flag (is (stage h)) =
      flag (r' == some h) - flag (r == some h) := by
  by_cases hh : h = j
  · rw [hh, update_self]
    exact hj
  · rw [update_of_ne hh, hother h hh, Int.sub_self, Int.sub_self]

theorem some_beq_of_ne {i h : Nat} (hne : h ≠ i) : (some i == some h) = false := by
  simpa using Ne.symm hne

theorem waiters_access (h : Access x l x' l') (hf : Facts x l) (j : Nat) :
    flag (x'.stage j ≠ .idle) - flag (x.stage j ≠ .idle) =
      flag (l'.request == some j) - flag (l.request == some j) := by
  have hidle := hf.idle
  have hasked := hf.asked
  have hposted := hf.posted
  have hclears := hf.clears
  cases h with
  | @publish b idx =>
    apply flag_update (fun st => st ≠ .idle)
    · rw [hidle idx.head mem_cons_self rfl]
      simp [Pc.request, flag]
    · exact fun h hne => some_beq_of_ne hne
  | @forget b idx =>
    apply flag_update (fun st => st ≠ .idle)
    · have := hasked idx.head rfl
      simp [Pc.request, flag, this]
    · exact fun h hne => (some_beq_of_ne hne).symm
  | @complete id b hb =>
    apply flag_update (fun st => st ≠ .idle)
    · rw [hposted id rfl]
      simp [Pc.request, flag]
    · exact fun _ _ => rfl
  | @advance id =>
    apply flag_update (fun st => st ≠ .idle)
    · rw [hclears id rfl]
      simp [Pc.request, flag]
    · exact fun _ _ => rfl
  | undo hx | free hx =>
    obtain ⟨_, _, rfl⟩ := freeDesc_eq_ok hx
    exact (Int.sub_self _).trans (Int.sub_self _).symm
  | _ => exact (Int.sub_self _).trans (Int.sub_self _).symm

theorem handlers_access (h : Access x l x' l') (hf : Facts x l) (j : Nat) :
    flag (x'.stage j = .cleared) - flag (x.stage j = .cleared) =
      flag (l'.clears == some j) - flag (l.clears == some j) := by
  have hidle := hf.idle
  have hassert := hf.assert
  have hposted := hf.posted
  have hclears := hf.clears
  cases h with
  | @publish b idx =>
    apply flag_update (fun st => st = .cleared)
    · rw [hidle idx.head mem_cons_self rfl]
      simp [Pc.clears, flag]
    · exact fun _ _ => rfl
  | @forget b idx =>
    apply flag_update (fun st => st = .cleared)
    · rw [hassert.2]
      simp [Pc.clears, flag]
    · exact fun _ _ => rfl
  | @complete id b hb =>
    apply flag_update (fun st => st = .cleared)
    · rw [hposted id rfl]
      simp [Pc.clears, flag]
    · exact fun h hne => some_beq_of_ne hne
  | @advance id =>
    apply flag_update (fun st => st = .cleared)
    · rw [hclears id rfl]
      simp [Pc.clears, flag]
    · exact fun h hne => (some_beq_of_ne hne).symm
  | undo hx | free hx =>
    obtain ⟨_, _, rfl⟩ := freeDesc_eq_ok hx
    exact (Int.sub_self _).trans (Int.sub_self _).symm
  | _ => exact (Int.sub_self _).trans (Int.sub_self _).symm

end Access

/-! ## §4. What the processes know. -/

section Own

variable {B : Type} [DecidableEq B] {x x' : Disk B} {l l' : Pc B}

theorem asked_format {b : B} {write : Bool} {sector : Nat} {idx : Idx} (hnodup : idx.list.Nodup)
    (hidle : x.stage idx.head = .idle) : Asked (x.format b write sector idx) b idx := by
  obtain ⟨h01, h02, h12⟩ := ne_of_nodup hnodup
  refine ⟨⟨hnodup, ?_⟩, ?_, ?_⟩
  · refine ⟨?_, ?_, ?_, ?_, ?_⟩
    · simp [Disk.format, update_of_ne h01, update_of_ne h02, Desc.hasNext]
    · simp [Disk.format, update_of_ne h01, update_of_ne h02]
    · cases write <;> simp [Disk.format, update_of_ne h12, Desc.hasNext]
    · simp [Disk.format, update_of_ne h12]
    · simp [Chain, Disk.format, Desc.hasNext]
  · simp [Disk.format]
  · simp [Disk.format, hidle, Stage.pending]

theorem assert_own (h : Access x l x' l') (hf : Facts x l) : l'.assert x' := by
  have hassert := hf.assert
  have hidle := hf.idle
  have hnodup := hf.nodup
  have hsettled := hf.settled
  have hrecorded := hf.recorded
  have hpanic := fun e => h.no_panic hf (e := e)
  cases h with
  | undoPanics | freePanics => cases hpanic _ rfl
  | status => rfl
  | null hb => exact absurd hb (hrecorded _ rfl)
  | panicked | waits hb | complete hb => exact hassert
  | @format b write sector idx =>
    exact asked_format hnodup (hidle idx.head mem_cons_self rfl)
  | @ring b idx =>
    exact ⟨⟨hassert.linked, hassert.info, hassert.disk⟩, update_self _ _ _⟩
  | @publish b idx =>
    obtain ⟨hasked, _⟩ := hassert
    refine ⟨hasked.linked, hasked.info, ?_⟩
    have hdisk := hasked.disk
    rw [hidle idx.head mem_cons_self rfl] at hdisk
    show x.disk b = (update x.stage idx.head Stage.published idx.head).pending
    rw [hdisk, update_self]
    rfl
  | @leaves b idx hb =>
    refine ⟨hassert.linked, ?_⟩
    have hdisk := hassert.disk
    have hnot := hsettled b idx rfl
    rw [hb] at hdisk
    cases hst : x.stage idx.head <;> rw [hst] at hdisk hnot <;>
      first | rfl | exact absurd rfl hnot | cases hdisk
  | @forget b idx =>
    refine ⟨hassert.1.nodup, mem_cons_self, ?_⟩
    rw [Idx.from, if_pos rfl]
    exact hassert.1.chain
  | @free _ b idx i hx =>
    obtain ⟨next, hnext, hfrom, hrest⟩ := Unlinking.next hassert b
    rw [hnext]
    cases next with
    | none => trivial
    | some j =>
      obtain ⟨_, _, rfl⟩ := freeDesc_eq_ok hx
      have hj := hrest j rfl
      refine ⟨hj.nodup, hj.mem, hj.chain.congr ?_⟩
      -- the descriptor that is freed is not in the rest
      intro k hk
      have hni : i ∉ idx.from j := by
        have hn : (idx.from i).Nodup := hnodup
        rw [hfrom] at hn
        exact (nodup_cons.mp hn).1
      exact update_of_ne (ne_of_mem_of_not_mem hk hni) _ _
  | front hne => exact ⟨hne, rfl⟩
  | _ => trivial

end Own

theorem Asked.congr {B : Type} {x x' : Disk B} {b : B} {idx : Idx} (h : Asked x b idx)
    (hdesc : ∀ i ∈ idx.list, x'.desc i = x.desc i)
    (hinfo : (x'.info idx.head).b = (x.info idx.head).b)
    (hdisk : x'.disk b = (x'.stage idx.head).pending) : Asked x' b idx :=
  ⟨⟨h.linked.nodup, h.linked.chain.congr hdesc⟩, hinfo.trans h.info, hdisk⟩

section Other

variable {n : Nat} {B : Type} [DecidableEq B] {s : State n B} {p q : Fin n} {x' : Disk B} {l' : Pc B}

/-- A request that sleeps is not touched by what another process does, except
that the handler completes it. -/
theorem asked_other (hk : Inv s) (hm : s.mode p = .running)
    (h : Access s.shared (s.pc p) x' l') (hq : q ≠ p) {b : B} {idx : Idx}
    (hpc : s.pc q = .rSleep b idx) : Asked x' b idx := by
  have hasked : Asked s.shared b idx := by
    have := hk.asserts q
    rwa [hpc] at this
  have hfree : ∀ i ∈ (s.pc p).owned, i ∉ idx.list := by
    intro i hi hmem
    have hown : i ∈ (s.pc q).owned := by
      rw [hpc]
      exact hmem
    exact hq (hk.owner_unique hown hi)
  have hbuf : (s.pc p).buf ≠ some b := by
    intro hb
    exact hq (hk.user_unique (by rw [hpc]; rfl) hb)
  have hclears := fun j => hk.stage_of_clears (p := p) (j := j)
  -- the request that is completed belongs to nobody else
  have hcomplete : ∀ id b₁, s.pc p = .iClear id → (s.shared.info id).b = some b₁ →
      id ≠ idx.head → b₁ ≠ b := by
    intro id b₁ hl hb₁ hne he
    obtain ⟨r, b₂, idx₂, hpc₂, hhead, hb₂⟩ := hk.completes hm hl
    rw [hb₁, he] at hb₂
    cases hb₂
    have hrq := hk.user_unique (p := r) (q := q) (b := b) (by rw [hpc₂]; rfl) (by rw [hpc]; rfl)
    rw [hrq, hpc] at hpc₂
    cases hpc₂
    exact hne hhead.symm
  -- a descriptor of the other process is none of the chain
  have hne : ∀ i ∈ (s.pc p).owned, idx.head ≠ i := fun i hi =>
    ne_of_mem_of_not_mem mem_cons_self (hfree i hi)
  have hassert := hk.asserts p
  generalize s.pc p = l at h hfree hbuf hclears hcomplete hne hassert
  generalize s.shared = x at h hasked hclears hcomplete hassert
  have hdisk := hasked.disk
  cases h with
  | @undo _ _ _ _ i todo hx =>
    obtain ⟨_, _, rfl⟩ := freeDesc_eq_ok hx
    have hi := hfree i mem_cons_self
    exact hasked.congr (fun k hk => update_of_ne (ne_of_mem_of_not_mem hk hi) _ _) rfl
      hdisk
  | @free _ b₁ idx₁ i hx =>
    obtain ⟨_, _, rfl⟩ := freeDesc_eq_ok hx
    have hi := hfree i (Unlinking.mem_from hassert b₁)
    exact hasked.congr (fun k hk => update_of_ne (ne_of_mem_of_not_mem hk hi) _ _) rfl
      hdisk
  | @format b₁ write sector idx₁ =>
    have h₀ := hfree idx₁.head mem_cons_self
    have h₁ := hfree idx₁.data (mem_cons_of_mem _ mem_cons_self)
    have h₂ := hfree idx₁.status
      (mem_cons_of_mem _ (mem_cons_of_mem _ mem_cons_self))
    apply hasked.congr
    · intro k hk
      show update (update (update x.desc _ _) _ _) _ _ k = x.desc k
      rw [update_of_ne (ne_of_mem_of_not_mem hk h₂),
        update_of_ne (ne_of_mem_of_not_mem hk h₁),
        update_of_ne (ne_of_mem_of_not_mem hk h₀)]
    · show (update x.info _ _ idx.head).b = _
      rw [update_of_ne (hne _ mem_cons_self)]
    · show update x.disk b₁ true b = _
      rw [update_of_ne (fun he => hbuf (congrArg some he.symm))]
      exact hdisk
  | @publish b₁ idx₁ =>
    refine hasked.congr (fun _ _ => rfl) rfl ?_
    show x.disk b = (update x.stage idx₁.head _ idx.head).pending
    rw [update_of_ne (hne _ mem_cons_self)]
    exact hdisk
  | @forget b₁ idx₁ =>
    refine hasked.congr (fun _ _ => rfl) ?_ ?_
    · show (update x.info _ _ idx.head).b = _
      rw [update_of_ne (hne _ mem_cons_self)]
    · show x.disk b = (update x.stage idx₁.head _ idx.head).pending
      rw [update_of_ne (hne _ mem_cons_self)]
      exact hdisk
  | @complete id b₁ hb₁ =>
    refine hasked.congr (fun _ _ => rfl) rfl ?_
    show update x.disk b₁ false b = (update x.stage id .cleared idx.head).pending
    by_cases hid : id = idx.head
    · -- it is this request
      have hb := hasked.info
      rw [← hid, hb₁] at hb
      cases hb
      rw [hid, update_self, update_self]
      rfl
    · rw [update_of_ne (Ne.symm (hcomplete id b₁ rfl hb₁ hid)),
        update_of_ne (Ne.symm hid)]
      exact hdisk
  | @advance id =>
    refine hasked.congr (fun _ _ => rfl) rfl ?_
    show x.disk b = (update x.stage id .finished idx.head).pending
    by_cases hid : idx.head = id
    · rw [hid, hclears id rfl] at hdisk
      rw [hid, update_self, hdisk]
      rfl
    · rw [update_of_ne hid]
      exact hdisk
  | alloc | allocLast | ring | call | relse => exact hasked.congr (fun _ _ => rfl) rfl hdisk
  | _ => exact hasked

end Other

theorem assert_mono {B : Type} {l : Pc B} {x x' : Disk B} (h : l.assert x)
    (hdesc : x'.desc = x.desc) (hinfo : ∀ i, (x'.info i).b = (x.info i).b)
    (hdisk : x'.disk = x.disk) (havail : x'.avail = x.avail)
    (hpending : ∀ i, (x'.stage i).pending = (x.stage i).pending)
    (hfinished : ∀ i, x.stage i = .finished → x'.stage i = .finished)
    (hfront : x.usedIdx ≠ x.used.idx → x'.usedIdx ≠ x'.used.idx ∧ x'.usedFront = x.usedFront) :
    l.assert x' := by
  have hasked : ∀ b idx, Asked x b idx → Asked x' b idx := by
    intro b idx ha
    refine ⟨hdesc ▸ ha.linked, (hinfo _).trans ha.info, ?_⟩
    rw [hdisk, hpending]
    exact ha.disk
  have hused : ∀ id, x.usedIdx ≠ x.used.idx ∧ x.usedFront = id →
      x'.usedIdx ≠ x'.used.idx ∧ x'.usedFront = id := by
    rintro id ⟨hne, hid⟩
    exact ⟨(hfront hne).1, (hfront hne).2.trans hid⟩
  cases l with
  | rRing b idx | rWait b idx | rSleep b idx => exact hasked b idx h
  | rPublish b idx =>
    refine ⟨hasked b idx h.1, ?_⟩
    rw [havail]
    exact h.2
  | rDone b idx => exact ⟨hdesc ▸ h.1, hfinished _ h.2⟩
  | rFree b idx i =>
    show Unlinking x'.desc idx i
    rw [hdesc]
    exact h
  | rFreeWake b idx next =>
    cases next with
    | none => trivial
    | some i =>
      show Unlinking x'.desc idx i
      rw [hdesc]
      exact h
  | iClear id | iWake b id | iNext id => exact hused id h
  | panicked e => exact h
  | _ => trivial

/-! ## §5. The rings. -/

section RingSteps

variable {B : Type} {x x' : Disk B}

theorem devTake_eq_some (hr : Rings x) (h : x.devTake = some x') :
    ∃ j l, Ring.Holds x.avail.ring x.lastAvail (j :: l) x.avail.idx ∧
      Tracks (j :: l) Stage.inAvail x.stage ∧ x.stage j = .published ∧
      x' = { x with lastAvail := x.lastAvail + 1, taken := j :: x.taken }.setStage j .taken := by
  unfold Disk.devTake at h
  split at h
  · cases h
  · next hne =>
    obtain ⟨l, hholds, htracks⟩ := hr.avail
    cases l with
    | nil => exact absurd ((hholds.empty_iff (by decide)).mpr rfl) hne
    | cons j l =>
      have hj := hholds.pop.1
      have hst := (htracks.mem j).mp mem_cons_self
      dsimp only at h
      rw [hj] at h
      refine ⟨j, l, hholds, htracks, ?_, (Option.some.inj h).symm⟩
      cases hs : x.stage j <;> rw [hs] at hst <;> first | rfl | cases hst

variable {j : Nat} {status : UInt8}

theorem devPost_eq_some (hr : Rings x)
    (h : x.devPost j status = some x') : j ∈ x.taken ∧ x.stage j = .taken ∧ x' = { x with
        taken := x.taken.erase j
        info := x.writeStatus j status
        used := { idx := x.used.idx + 1
                  ring := update x.used.ring (Ring.slot x.used.idx) j } }.setStage
          j .posted := by
  unfold Disk.devPost at h
  split at h
  · next hj =>
    refine ⟨hj, ?_, (Option.some.inj h).symm⟩
    have hst := (hr.device.mem j).mp hj
    cases hs : x.stage j <;> rw [hs] at hst <;> first | rfl | cases hst
  · cases h

theorem writeStatus_b (x : Disk B) (j : Nat) (status : UInt8) (i : Nat) :
    (x.writeStatus j status i).b = (x.info i).b := by
  unfold Disk.writeStatus
  cases (x.desc (x.desc (x.desc j).next).next).addr with
  | status k =>
    show (update x.info k _ i).b = _
    by_cases hi : i = k
    · rw [hi, update_self]
    · rw [update_of_ne hi]
  | _ => rfl

theorem Rings.used_push (hr : Rings x) (hlt : ∀ i, x.stage i ≠ .idle → i < NUM)
    (hj : x.stage j = .taken) : ∃ l, Ring.Holds x.used.ring x.usedIdx l x.used.idx ∧
      Tracks l Stage.inUsed x.stage ∧ l.length < NUM := by
  obtain ⟨l, hholds, htracks⟩ := hr.used
  refine ⟨l, hholds, htracks, htracks.length_lt ?_ (hlt j (by rw [hj]; nofun)) (by rw [hj]; rfl)⟩
  intro i hi
  apply hlt
  intro he
  rw [he] at hi
  cases hi

theorem rings_devTake (hr : Rings x) (h : x.devTake = some x') : Rings x' := by
  obtain ⟨j, l, hholds, htracks, hj, rfl⟩ := devTake_eq_some hr h
  obtain ⟨m, hused, hused'⟩ := hr.used
  refine ⟨⟨l, hholds.pop.2, htracks.tail rfl⟩, hr.device.cons (by rw [hj]; rfl) rfl, m, hused, ?_⟩
  exact hused'.keep (by rw [hj]; rfl)

section

variable (hr : Rings x) (hlt : ∀ i, x.stage i ≠ .idle → i < NUM) (h : x.devPost j status = some x')

include hr hlt h

theorem rings_devPost : Rings x' := by
  obtain ⟨hmem, hj, rfl⟩ := devPost_eq_some hr h
  obtain ⟨l, havail, havail'⟩ := hr.avail
  obtain ⟨m, hused, hused', hlen⟩ := hr.used_push hlt hj
  refine ⟨⟨l, havail, havail'.keep (by rw [hj]; rfl)⟩, hr.device.erase hmem rfl, m ++ [j], ?_, ?_⟩
  · exact hused.push (by decide) hlen j
  · exact hused'.concat (by rw [hj]; rfl) rfl

theorem usedFront_devPost (hne : x.usedIdx ≠ x.used.idx) :
    x'.usedIdx ≠ x'.used.idx ∧ x'.usedFront = x.usedFront := by
  obtain ⟨hmem, hj, rfl⟩ := devPost_eq_some hr h
  obtain ⟨m, hused, _, hlen⟩ := hr.used_push hlt hj
  have hpush := hused.push (by decide) hlen j
  cases m with
  | nil => exact absurd ((hused.empty_iff (by decide)).mpr rfl) hne
  | cons id m =>
    constructor
    · intro he
      exact absurd ((hpush.empty_iff (by decide)).mp he) (by simp)
    · exact hpush.pop.1.trans hused.pop.1.symm

end

theorem device_stage (hr : Rings x) {i : Input B} (h : device x i = some x') :
    ∃ j st, x'.stage = update x.stage j st ∧ x.stage j ≠ .idle ∧ st ≠ .idle ∧
      (x.stage j).pending = true ∧ st.pending = true ∧ x.stage j ≠ .cleared ∧ st ≠ .cleared := by
  cases i with
  | take =>
    obtain ⟨j, l, _, _, hj, rfl⟩ := devTake_eq_some hr h
    exact ⟨j, .taken, rfl, by rw [hj]; nofun, nofun, by rw [hj]; rfl, rfl, by rw [hj]; nofun, nofun⟩
  | post j status =>
    obtain ⟨_, hj, rfl⟩ := devPost_eq_some hr h
    exact ⟨j, .posted, rfl, by rw [hj]; nofun, nofun, by rw [hj]; rfl, rfl, by rw [hj]; nofun, nofun⟩
  | rw | intr => cases h

theorem stage_env (is : Stage → Bool) {st : Stage}
    (h : x'.stage = update x.stage j st) (hst : is st = is (x.stage j)) (i : Nat) :
    flag (is (x'.stage i)) = flag (is (x.stage i)) := by
  rw [h]
  by_cases hi : i = j
  · rw [hi, update_self, hst]
  · rw [update_of_ne hi]

variable [DecidableEq B] {l l' : Pc B}

theorem rings_access (h : Access x l x' l') (hf : Facts x l) (hr : Rings x)
    (hlt : ∀ i, x.stage i ≠ .idle → i < NUM) : Rings x' := by
  have hidle := hf.idle
  have hbusy := hf.busy
  have hassert := hf.assert
  have hposted := hf.posted
  have hclears := hf.clears
  obtain ⟨m, havail, havail'⟩ := hr.avail
  obtain ⟨k, hused, hused'⟩ := hr.used
  -- the slot behind the avail ring is free for a request that is not in it
  have hroom : ∀ j, j < NUM → x.stage j = .idle → m.length < NUM := by
    intro j hj hst
    apply havail'.length_lt _ hj (by rw [hst]; rfl)
    intro i hi
    apply hlt
    intro he
    rw [he] at hi
    cases hi
  cases h with
  | @ring b idx =>
    have hlen := hroom idx.head (hbusy _ mem_cons_self).1 (hidle _ mem_cons_self rfl)
    exact ⟨⟨m, havail.store (by decide) hlen _, havail'⟩, hr.device, hr.used⟩
  | @publish b idx =>
    have hst := hidle idx.head mem_cons_self rfl
    have hlen := hroom idx.head (hbusy _ mem_cons_self).1 hst
    refine ⟨⟨m ++ [idx.head], havail.grow (by decide) hlen hassert.2, ?_⟩, ?_, k, hused, ?_⟩
    · exact havail'.concat (by rw [hst]; rfl) rfl
    · exact hr.device.keep (by rw [hst]; rfl)
    · exact hused'.keep (by rw [hst]; rfl)
  | @forget b idx =>
    have hst := hassert.2
    refine ⟨⟨m, havail, ?_⟩, ?_, k, hused, ?_⟩
    · exact havail'.keep (by rw [hst]; rfl)
    · exact hr.device.keep (by rw [hst]; rfl)
    · exact hused'.keep (by rw [hst]; rfl)
  | @complete id b hb =>
    have hst := hposted id rfl
    refine ⟨⟨m, havail, ?_⟩, ?_, k, hused, ?_⟩
    · exact havail'.keep (by rw [hst]; rfl)
    · exact hr.device.keep (by rw [hst]; rfl)
    · exact hused'.keep (by rw [hst]; rfl)
  | @advance id =>
    have hst := hclears id rfl
    refine ⟨⟨m, havail, havail'.keep (by rw [hst]; rfl)⟩, hr.device.keep (by rw [hst]; rfl), ?_⟩
    cases k with
    | nil => exact absurd ((hused.empty_iff (by decide)).mpr rfl) hassert.1
    | cons j k =>
      have hj : j = id := hused.pop.1.symm.trans hassert.2
      subst hj
      exact ⟨k, hused.pop.2, hused'.tail rfl⟩
  | undo hx | free hx =>
    obtain ⟨_, _, rfl⟩ := freeDesc_eq_ok hx
    exact ⟨hr.avail, hr.device, hr.used⟩
  | _ => exact ⟨hr.avail, hr.device, hr.used⟩

end RingSteps

/-! ## §6. The step. -/

section Step

variable {n : Nat} {B : Type} [DecidableEq B]

theorem next_same {l l' : Pc B} (h : (prog.code l).next = some l') :
    l'.owned = l.owned ∧ l'.buf = l.buf ∧ l'.request = l.request ∧ l'.clears = l.clears ∧
      ∀ x, l.assert x → l'.assert x := by
  change (code l).next = some l' at h
  unfold code at h
  split at h <;> cases h
  case h_14.refl b idx next => cases next <;> exact ⟨rfl, rfl, rfl, rfl, fun _ ha => ha⟩
  all_goals exact ⟨rfl, rfl, rfl, rfl, fun _ ha => ha⟩

theorem owners_tally (i : Nat) :
    Tally prog (Pc.count i) (fun x : Disk B => flag (x.busy i)) (Inv (n := n)) where
  access s p _ inp hk _ hm hc :=
    owners_access (access_of_code hc s.shared (s.killed p) inp) (hk.facts hm) i
  env s inp x hk hx := by
    cases inp with
    | take =>
      obtain ⟨j, l, _, _, _, rfl⟩ := devTake_eq_some hk.rings hx
      rfl
    | post j status =>
      obtain ⟨_, _, rfl⟩ := devPost_eq_some hk.rings hx
      rfl
    | rw | intr => cases hx
  next l l' hl := by
    show ((l'.owned.count i : Nat) : Int) = (l.owned.count i : Nat)
    rw [(next_same hl).1]

theorem users_tally (b : B) :
    Tally prog (fun l => flag (l.buf == some b)) (fun x : Disk B => flag (x.locked b))
      (Inv (n := n)) where
  access s p _ inp hk _ hm hc :=
    users_access (access_of_code hc s.shared (s.killed p) inp) (hk.facts hm) b
  env s inp x hk hx := by
    cases inp with
    | take =>
      obtain ⟨j, l, _, _, _, rfl⟩ := devTake_eq_some hk.rings hx
      rfl
    | post j status =>
      obtain ⟨_, _, rfl⟩ := devPost_eq_some hk.rings hx
      rfl
    | rw | intr => cases hx
  next l l' hl := by
    rw [(next_same hl).2.1]

theorem waiters_tally (j : Nat) :
    Tally prog (fun l : Pc B => flag (l.request == some j)) (fun x => flag (x.stage j ≠ .idle))
      (Inv (n := n)) where
  access s p _ inp hk _ hm hc :=
    waiters_access (access_of_code hc s.shared (s.killed p) inp) (hk.facts hm) j
  env s inp x hk hx := by
    obtain ⟨k, st, hstage, hne, hne', _⟩ := device_stage hk.rings hx
    exact stage_env (fun st => st ≠ .idle) hstage (by simp [hne, hne']) j
  next l l' hl := by
    rw [(next_same hl).2.2.1]

theorem handlers_tally (j : Nat) :
    Tally prog (fun l : Pc B => flag (l.clears == some j)) (fun x => flag (x.stage j = .cleared))
      (Inv (n := n)) where
  access s p _ inp hk _ hm hc :=
    handlers_access (access_of_code hc s.shared (s.killed p) inp) (hk.facts hm) j
  env s inp x hk hx := by
    obtain ⟨k, st, hstage, _, _, _, _, hne, hne'⟩ := device_stage hk.rings hx
    exact stage_env (fun st => st = .cleared) hstage (by simp [hne, hne']) j
  next l l' hl := by
    rw [(next_same hl).2.2.2.1]

variable {s : State n B}

theorem assert_env (hk : Inv s) {inp : Input B} {x : Disk B}
    (hx : device s.shared inp = some x) {l : Pc B} (h : l.assert s.shared) : l.assert x := by
  obtain ⟨k, st, hstage, _, _, hp, hp', _⟩ := device_stage hk.rings hx
  have hpending : ∀ i, (x.stage i).pending = (s.shared.stage i).pending := by
    intro i
    rw [hstage]
    by_cases hi : i = k
    · rw [hi, update_self, hp, hp']
    · rw [update_of_ne hi]
  have hfinished : ∀ i, s.shared.stage i = .finished → x.stage i = .finished := by
    intro i hi
    have hik : i ≠ k := by
      intro he
      rw [← he, hi] at hp
      cases hp
    rw [hstage, update_of_ne hik]
    exact hi
  cases inp with
  | take =>
    obtain ⟨j, m, _, _, _, rfl⟩ := devTake_eq_some hk.rings hx
    exact assert_mono h rfl (fun _ => rfl) rfl rfl hpending hfinished fun hne => ⟨hne, rfl⟩
  | post j status =>
    have hfront := usedFront_devPost hk.rings (fun i hi => hk.waiter_lt hi) hx
    obtain ⟨_, _, rfl⟩ := devPost_eq_some hk.rings hx
    exact assert_mono h rfl (writeStatus_b _ _ _) rfl rfl hpending hfinished hfront
  | rw | intr => cases hx

theorem assert_other (hk : Inv s) {p q : Fin n} (hm : s.mode p = .running)
    {x' : Disk B} {l' : Pc B} (h : Access s.shared (s.pc p) x' l') (hq : q ≠ p) :
    (s.pc q).assert x' := by
  have hassert := hk.asserts q
  cases hheld : held (s.pc p) with
  | false =>
    generalize s.pc p = l at h hheld
    cases h with
    | call | relse =>
      exact assert_mono hassert rfl (fun _ => rfl) rfl rfl (fun _ => rfl) (fun _ hi => hi)
        fun hne => ⟨hne, rfl⟩
    | intr | idle => exact hassert
    | _ => cases hheld
  | true =>
    -- everybody else is outside or asleep
    rcases hk.others hm hheld hq with hl | ⟨b, write, sector, hl⟩ | ⟨b, idx, hl⟩
    · exact (nothing_outside hl).2.2 x'
    · rw [hl]
      trivial
    · rw [hl]
      exact asked_other hk hm h hq hl

theorem asserts_local : Local prog Pc.assert (Inv (n := n) (B := B)) where
  own s p _ inp hk hm hc _ := assert_own (access_of_code hc s.shared (s.killed p) inp) (hk.facts hm)
  other s p _ _ inp hk hm hc hq _ :=
    assert_other hk hm (access_of_code hc s.shared (s.killed p) inp) hq
  env _ _ _ _ hk hx h := assert_env hk hx h
  next _ _ x hl h := (next_same hl).2.2.2.2 x h

theorem rings_step {s s' : State n B} {a : Act n (Input B)} (hk : Inv s) (hs : Step prog a s s') :
    Rings s'.shared := by
  have hlt : ∀ i, s.shared.stage i ≠ .idle → i < NUM := fun i hi => hk.waiter_lt hi
  rcases hs.moves with ⟨p, f, i, _, hm, hc, hx, _⟩ | ⟨i, hx, _⟩ | ⟨p, l, _, _, _, hx, _⟩ | ⟨hx, _⟩
  · rw [hx]
    exact rings_access (access_of_code hc s.shared (s.killed p) i) (hk.facts hm) hk.rings hlt
  · cases i with
    | take => exact rings_devTake hk.rings hx
    | post j status => exact rings_devPost hk.rings hlt hx
    | rw | intr => cases hx
  · rw [hx]
    exact hk.rings
  · rw [hx]
    exact hk.rings

/-- **Every step keeps the invariant.** -/
theorem inv_step {s s' : State n B} {a : Act n (Input B)} (hk : Inv s) (hs : Step prog a s s') :
    Inv s' where
  lock := lockInv_step disciplined hk.lock hs
  owners i := tally_step (owners_tally i) hk (hk.owners i) hs
  users b := tally_step (users_tally b) hk (hk.users b) hs
  waiters j := tally_step (waiters_tally j) hk (hk.waiters j) hs
  handlers j := tally_step (handlers_tally j) hk (hk.handlers j) hs
  asserts := local_step asserts_local hk hk.asserts hs
  rings := rings_step hk hs

theorem inv_start : Inv (start Disk.init .idle : State n B) where
  lock := lockInv_start rfl
  owners i := by
    have hbusy : (Disk.init : Disk B).busy i = false := by
      simp [Disk.busy, Disk.init]
    show flag (Disk.busy Disk.init i) = ∑ q : Fin n, (0 : Int)
    rw [hbusy, Finset.sum_const_zero]
    rfl
  users b := by simp [start, Disk.init, Pc.buf, flag]
  waiters j := by simp [start, Disk.init, Pc.request, flag]
  handlers j := by simp [start, Disk.init, Pc.clears, flag]
  asserts _ := trivial
  rings := by
    have htracks : ∀ is : Stage → Bool, is .idle = false → Tracks [] is fun _ => .idle := by
      intro is his
      refine ⟨nodup_nil, fun h => ?_⟩
      rw [his]
      simp
    exact ⟨⟨[], Ring.holds_nil, htracks _ rfl⟩, htracks _ rfl, [], Ring.holds_nil, htracks _ rfl⟩

/-- **In every run** the invariant holds. -/
theorem run_inv (h : DiskRun s) : Inv s := by
  apply Reachable.invariant Inv _ _ h
  · intro s hs
    rw [hs]
    exact inv_start
  · intro s s' hk ⟨a, hs, _⟩
    exact inv_step hk hs

end Step

end Xv6.Virtio
