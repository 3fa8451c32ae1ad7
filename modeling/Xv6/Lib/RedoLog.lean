/-
  Xv6.Lib.RedoLog — replaying and installing block writes.

  `Pending entries d T`: installing `entries` over the store `d` gives `T`.  It
  survives the installation of any entry, in any order and any number of times.
-/
import Mathlib

namespace Xv6.Lib

open Function

variable {A B : Type*}

section Replay

variable [DecidableEq A]

def replay (ws : List (A × B)) (d : A → B) : A → B :=
  ws.foldl (fun d w => update d w.1 w.2) d

@[simp] theorem replay_cons (w : A × B) (ws : List (A × B)) (d : A → B) :
    replay (w :: ws) d = replay ws (update d w.1 w.2) := rfl

theorem replay_append (ws vs : List (A × B)) (d : A → B) :
    replay (ws ++ vs) d = replay vs (replay ws d) := by
  simp only [replay, List.foldl_append]

theorem replay_of_notMem (ws : List (A × B)) (d : A → B) (a : A)
    (h : ∀ w ∈ ws, w.1 ≠ a) : replay ws d a = d a := by
  induction ws generalizing d with
  | nil => rfl
  | cons w ws ih =>
    rw [replay_cons, ih _ (fun v hv => h v (List.mem_cons_of_mem _ hv))]
    exact update_of_ne (h w List.mem_cons_self).symm _ _

end Replay

/-! ## Entries that are still to be installed -/

/-- Over the addresses of `P`: the store `d` with the entries installed is `T`. -/
structure Pending (P : A → Prop) (entries : List (A × B)) (d T : A → B) : Prop where
  entry : ∀ e ∈ entries, T e.1 = e.2
  rest : ∀ a, P a → (∀ e ∈ entries, e.1 ≠ a) → d a = T a

namespace Pending

variable {P : A → Prop} {entries : List (A × B)} {d d' T : A → B}

theorem of_eq (hentry : ∀ e ∈ entries, T e.1 = e.2) (h : ∀ a, P a → d a = T a) :
    Pending P entries d T := ⟨hentry, fun a ha _ => h a ha⟩

/-- **Idempotence.**  Installing one entry, for the first time or again,
leaves the same outcome pending. -/
theorem install [DecidableEq A] (h : Pending P entries d T) {e : A × B} (he : e ∈ entries) :
    Pending P entries (update d e.1 e.2) T := by
  refine ⟨h.entry, fun a ha hne => ?_⟩
  rw [update_of_ne (hne e he).symm]
  exact h.rest a ha hne

theorem eq_of_installed (h : Pending P entries d T) (hall : ∀ e ∈ entries, d e.1 = e.2)
    (a : A) (ha : P a) : d a = T a := by
  by_cases hex : ∃ e ∈ entries, e.1 = a
  · obtain ⟨e, he, rfl⟩ := hex
    rw [hall e he, h.entry e he]
  · exact h.rest a ha (fun e he hea => hex ⟨e, he, hea⟩)

end Pending

end Xv6.Lib
