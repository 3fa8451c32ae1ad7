/-
  Xv6.Lib.Run — runs of a transition system.

  `Reachable init step s`: some finite sequence of steps leads to `s`.
-/
import Mathlib

namespace Xv6.Lib

/-- The states of the runs of `step` that start in `init`. -/
inductive Reachable {σ : Type*} (init : σ → Prop) (step : σ → σ → Prop) : σ → Prop
  | start {s : σ} (h : init s) : Reachable init step s
  | next {s s' : σ} (h : Reachable init step s) (hs : step s s') : Reachable init step s'

namespace Reachable

variable {σ : Type*} {init : σ → Prop} {step : σ → σ → Prop}

/-- **The invariant rule.**  What holds initially and survives every step
holds in every reachable state. -/
theorem invariant (inv : σ → Prop) (hinit : ∀ s, init s → inv s)
    (hstep : ∀ s s', inv s → step s s' → inv s') {s : σ} (h : Reachable init step s) : inv s := by
  induction h with
  | start h => exact hinit _ h
  | next _ hs ih => exact hstep _ _ ih hs

theorem invariant_with (known inv : σ → Prop) (hknown : ∀ s, Reachable init step s → known s)
    (hinit : ∀ s, init s → inv s)
    (hstep : ∀ s s', known s → known s' → inv s → step s s' → inv s') {s : σ}
    (h : Reachable init step s) : inv s := by
  induction h with
  | start h => exact hinit _ h
  | next h hs ih => exact hstep _ _ (hknown _ h) (hknown _ (h.next hs)) ih hs

theorem exists_start {s : σ} (h : Reachable init step s) :
    ∃ s₀, init s₀ ∧ Reachable (· = s₀) step s := by
  induction h with
  | start h => exact ⟨_, h, .start rfl⟩
  | next _ hs ih =>
    obtain ⟨s₀, h₀, hrun⟩ := ih
    exact ⟨s₀, h₀, hrun.next hs⟩

end Reachable

/-! ## Runs of an executable step function. -/

instance neZeroOne : NeZero 1 := ⟨by decide⟩

instance neZeroTwo : NeZero 2 := ⟨by decide⟩

/-- The steps of a list of actions, one after the other; `none` if one of them
is not possible. -/
def runActs {σ α : Type*} (next : σ → α → Option σ) (s : σ) : List α → Option σ
  | [] => some s
  | a :: acts => (next s a).bind fun s => runActs next s acts

section

variable {σ α : Type*} {next : σ → α → Option σ}

variable {s s' : σ} {acts : List α}

theorem runActs_cons {a : α} (h : runActs next s (a :: acts) = some s') :
    ∃ t, next s a = some t ∧ runActs next t acts = some s' := by
  simpa [runActs, Option.bind_eq_some_iff] using h

theorem runActs_append (s : σ) (acts acts' : List α) :
    runActs next s (acts ++ acts') = (runActs next s acts).bind (runActs next · acts') := by
  induction acts generalizing s with
  | nil => rfl
  | cons a acts ih => simp [runActs, ih, Option.bind_assoc]

theorem Reachable.runActs {init : σ → Prop} {step : σ → σ → Prop}
    (hnext : ∀ s a s', next s a = some s' → step s s')
    (h : Reachable init step s) (hrun : runActs next s acts = some s') :
    Reachable init step s' := by
  induction acts generalizing s with
  | nil =>
    obtain rfl := Option.some.inj hrun
    exact h
  | cons a acts ih =>
    obtain ⟨t, ht, hrest⟩ := runActs_cons hrun
    exact ih (h.next (hnext s a t ht)) hrest

def stepIf (next : σ → α → Option σ) (ok : σ → α → Prop) [∀ s a, Decidable (ok s a)] (s : σ)
    (a : α) : Option σ := if ok s a then next s a else none

theorem Reachable.runIf {init : σ → Prop} {ok : σ → α → Prop} [∀ s a, Decidable (ok s a)]
    (h : Reachable init (fun s s' => ∃ a, next s a = some s' ∧ ok s a) s)
    (hrun : Lib.runActs (stepIf next ok) s acts = some s') :
    Reachable init (fun s s' => ∃ a, next s a = some s' ∧ ok s a) s' := by
  refine Reachable.runActs (fun s a s' hstep => ?_) h hrun
  unfold stepIf at hstep
  split at hstep
  case isTrue hok => exact ⟨a, hstep, hok⟩
  case isFalse => cases hstep

end

end Xv6.Lib
