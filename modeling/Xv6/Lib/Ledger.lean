/-
  Xv6.Lib.Ledger — computations that keep books.

  A ledger is a value in a commutative group that is read off the state.
  `Comp.Adds P μ d m`: `m` keeps `P` and adds `d a` to the ledger `μ` when it returns `a`.
-/
import Xv6.Lib.Bytes
import Xv6.Lib.Comp

namespace Xv6.Lib

open Finset

theorem sum_put {ι α G : Type} [AddCommGroup G] [Fintype ι] [DecidableEq ι] (f : ι → α) (a : ι)
    (v : α) (g : α → G) : ∑ i, g (put f a v i) = ∑ i, g (f i) + (g v - g (f a)) := by
  rw [← add_sum_erase _ _ (mem_univ a),
    ← add_sum_erase _ (fun i => g (f i)) (mem_univ a), put_self]
  have hrest : ∑ i ∈ Finset.univ.erase a, g (put f a v i) = ∑ i ∈ Finset.univ.erase a, g (f i) :=
    sum_congr rfl fun i hi => by rw [put_of_ne (ne_of_mem_erase hi)]
  rw [hrest, add_comm (g (f a)), add_assoc, add_sub_cancel, add_comm]

namespace Comp

variable {σ ε α β G : Type} [AddCommGroup G]

/-- Whenever `m` returns `a`, the invariant still holds and `d a` was added. -/
def Adds (P : σ → Prop) (μ : σ → G) (d : α → G) (m : Comp σ ε α) : Prop :=
  ∀ s, P s → wp (fun _ => True) (fun a s' => P s' ∧ μ s' = μ s + d a) m s

/-- Every end of the computation that is reached satisfies `Q`. -/
def Returns (Q : α → σ → Prop) (m : Comp σ ε α) (s : σ) : Prop := wp (fun _ => True) Q m s

theorem Returns.bind {R : α → σ → Prop} {Q : β → σ → Prop} {m : Comp σ ε α}
    {f : α → Comp σ ε β} {s : σ} (hm : Returns R m s)
    (hf : ∀ a s', R a s' → Returns Q (f a) s') : Returns Q (m >>= f) s := by
  unfold Returns at *
  rw [wp_bind]
  exact wp_mono hm hf

theorem Returns.mono {R Q : α → σ → Prop} {m : Comp σ ε α} {s : σ} (hm : Returns R m s)
    (h : ∀ a s', R a s' → Q a s') : Returns Q m s := wp_mono hm h

/-! ### What a computation leaves alone. -/

section Keeps

variable {τ : Type} {ν : σ → τ} {m : Comp σ ε α}

def Keeps (ν : σ → τ) (m : Comp σ ε α) : Prop := ∀ s, Returns (fun _ s' => ν s' = ν s) m s

theorem Keeps.pure {a : α} : Keeps ν (pure a : Comp σ ε α) := fun _ => rfl

theorem Keeps.throw {e : ε} : Keeps ν (throw e : Comp σ ε α) := fun _ => trivial

theorem Keeps.get : Keeps ν (get : Comp σ ε σ) := fun _ => rfl

theorem Keeps.modify {f : σ → σ} (h : ∀ s, ν (f s) = ν s) : Keeps ν (modify f : Comp σ ε PUnit) := h

theorem Keeps.bind {f : α → Comp σ ε β} (hm : Keeps ν m) (hf : ∀ a, Keeps ν (f a)) :
    Keeps ν (m >>= f) := by
  intro s
  refine (hm s).bind fun a s' hs' => ?_
  refine (hf a s').mono fun b s'' hs'' => ?_
  rw [hs'', hs']

theorem Keeps.ite {c : Prop} [Decidable c] {m' : Comp σ ε α} (hm : Keeps ν m)
    (hm' : Keeps ν m') : Keeps ν (if c then m else m') := by
  split
  · exact hm
  · exact hm'

theorem Keeps.guarded {c : Prop} [Decidable c] {m : Comp σ ε Unit} (hm : Keeps ν m) :
    Keeps ν (guarded c m) := .ite hm .pure

end Keeps

section Rules

variable {P : σ → Prop} {μ : σ → G} {d : α → G}

theorem Adds.pure {a : α} (h : d a = 0) : Adds P μ d (pure a : Comp σ ε α) := by
  intro s hs
  show P s ∧ μ s = μ s + d a
  rw [h, add_zero]
  exact ⟨hs, rfl⟩

theorem Adds.throw {e : ε} : Adds P μ d (throw e : Comp σ ε α) := fun _ _ => trivial

theorem Adds.get : Adds P μ (fun _ => 0) (get : Comp σ ε σ) := by
  intro s hs
  show P s ∧ μ s = μ s + 0
  exact ⟨hs, (add_zero _).symm⟩

theorem Adds.modify {f : σ → σ} {d : PUnit → G} (h : ∀ s, P s → P (f s) ∧ μ (f s) = μ s + d ⟨⟩) :
    Adds P μ d (modify f : Comp σ ε PUnit) := fun s hs => h s hs

variable {D : β → G} {m : Comp σ ε α} {f : α → Comp σ ε β} {K : G → Prop}

/-- What the first part has added is left to the second part. -/
theorem Adds.bind (hm : Adds P μ d m)
    (hf : ∀ a, Adds P μ (fun b => D b - d a) (f a)) : Adds P μ D (m >>= f) := by
  intro s hs
  rw [wp_bind]
  refine wp_mono (hm s hs) fun a s' ⟨hs', hμ⟩ => ?_
  refine wp_mono (hf a s' hs') fun b s'' ⟨hs'', hμ'⟩ => ⟨hs'', ?_⟩
  show μ s'' = μ s + D b
  rw [hμ', hμ, add_assoc, add_sub_cancel]

theorem Adds.bind_zero
    (hm : Adds P μ (fun _ => 0) m) (hf : ∀ a, Adds P μ D (f a)) : Adds P μ D (m >>= f) := by
  refine hm.bind fun a => ?_
  simpa only [sub_zero] using hf a

theorem Adds.congr {d' : α → G} (hm : Adds P μ d m) (h : ∀ a, d a = d' a) : Adds P μ d' m := by
  have hd : d = d' := funext h
  rwa [hd] at hm

theorem Returns.then_adds {s : σ} (hm : Returns (fun a s' => P s' ∧ μ s' = μ s + d a) m s)
    (hf : ∀ a, Adds P μ (fun b => D b - d a) (f a)) :
    Returns (fun b s' => P s' ∧ μ s' = μ s + D b) (m >>= f) s := by
  refine hm.bind fun a s' ⟨hs', hμ⟩ => ?_
  refine .mono (hf a s' hs') fun b s'' ⟨hs'', hμ'⟩ => ⟨hs'', ?_⟩
  rw [hμ', hμ, add_assoc, add_sub_cancel]

theorem Adds.ite {c : Prop} [Decidable c] {m m' : Comp σ ε α} (hm : c → Adds P μ d m)
    (hm' : ¬ c → Adds P μ d m') : Adds P μ d (if c then m else m') := by
  by_cases hc : c
  · rw [if_pos hc]
    exact hm hc
  · rw [if_neg hc]
    exact hm' hc

theorem Adds.guarded {c : Prop} [Decidable c] {m : Comp σ ε Unit} (hm : Adds P μ (fun _ => 0) m) :
    Adds P μ (fun _ => 0) (guarded c m) :=
  .ite (fun _ => hm) fun _ => .pure rfl

/-- The same for a start at which the ledger satisfies `K`. -/
def AddsFrom (K : G → Prop) (P : σ → Prop) (μ : σ → G) (d : α → G) (m : Comp σ ε α) : Prop :=
  ∀ s, P s → K (μ s) → Returns (fun a s' => P s' ∧ μ s' = μ s + d a) m s

theorem Adds.from (hm : Adds P μ d m) (K : G → Prop) : AddsFrom K P μ d m := fun s hs _ => hm s hs

theorem AddsFrom.pure {a : α} (h : d a = 0) :
    AddsFrom K P μ d (pure a : Comp σ ε α) := (Adds.pure h).from K

theorem AddsFrom.mono {K K' : G → Prop} (hm : AddsFrom K P μ d m)
    (h : ∀ g, K' g → K g) : AddsFrom K' P μ d m := fun s hs hK => hm s hs (h _ hK)

theorem AddsFrom.congr {d' : α → G} (hm : AddsFrom K P μ d m)
    (h : ∀ a, d a = d' a) : AddsFrom K P μ d' m := by
  have hd : d = d' := funext h
  rwa [hd] at hm

theorem AddsFrom.ite {c : Prop} [Decidable c] {m m' : Comp σ ε α}
    (hm : c → AddsFrom K P μ d m) (hm' : ¬ c → AddsFrom K P μ d m') :
    AddsFrom K P μ d (if c then m else m') := by
  by_cases hc : c
  · rw [if_pos hc]
    exact hm hc
  · rw [if_neg hc]
    exact hm' hc

theorem AddsFrom.bind (hm : AddsFrom K P μ d m)
    (hf : ∀ a, AddsFrom (fun g => K (g - d a)) P μ (fun b => D b - d a) (f a)) :
    AddsFrom K P μ D (m >>= f) := by
  intro s hs hK
  unfold Returns
  rw [wp_bind]
  refine wp_mono (hm s hs hK) fun a s' ⟨hs', hμ⟩ => ?_
  have hK' : K (μ s' - d a) := by
    rw [hμ, add_sub_cancel_right]
    exact hK
  refine wp_mono (hf a s' hs' hK') fun b s'' ⟨hs'', hμ'⟩ => ⟨hs'', ?_⟩
  show μ s'' = μ s + D b
  rw [hμ', hμ, add_assoc, add_sub_cancel]

theorem AddsFrom.bind_zero (hm : Adds P μ (fun _ => 0) m) (hf : ∀ a, AddsFrom K P μ D (f a)) :
    AddsFrom K P μ D (m >>= f) := by
  refine (hm.from K).bind fun a => ?_
  simpa only [sub_zero] using hf a

theorem Adds.of_get {f : σ → Comp σ ε α}
    (h : ∀ s, P s → Returns (fun a s' => P s' ∧ μ s' = μ s + d a) (f s) s) :
    Adds P μ d (MonadState.get >>= f) := by
  intro s hs
  rw [wp_bind]
  exact h s hs

theorem AddsFrom.of_get {f : σ → Comp σ ε α}
    (h : ∀ s, P s → K (μ s) → Returns (fun a s' => P s' ∧ μ s' = μ s + d a) (f s) s) :
    AddsFrom K P μ d (MonadState.get >>= f) := by
  intro s hs hK
  unfold Returns
  rw [wp_bind]
  exact h s hs hK

end Rules

end Comp

end Xv6.Lib
