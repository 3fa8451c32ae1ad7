/-
  Xv6.Lib.Comp — computations that change a state and may stop for good.

  `Comp.wp` is their weakest precondition.  A stop carries no state: what has
  to be said about it is a predicate on its reason.
-/
import Mathlib

namespace Xv6.Lib

/-- A computation over the state `σ`; `ε` says why it stopped. -/
abbrev Comp (σ ε : Type) := StateT σ (Except ε)

namespace Comp

variable {σ ε α β : Type}

/-- Started in `s`, the computation ends in `Q`, or stops for a reason in `E`. -/
def wp (E : ε → Prop) (Q : α → σ → Prop) (m : Comp σ ε α) (s : σ) : Prop :=
  match m s with
  | .ok r => Q r.1 r.2
  | .error e => E e

variable {E : ε → Prop} {Q R : α → σ → Prop} {m : Comp σ ε α} {s : σ}

theorem wp_pure (a : α) : wp E Q (pure a : Comp σ ε α) s ↔ Q a s := Iff.rfl

theorem wp_get {Q : σ → σ → Prop} : wp E Q (get : Comp σ ε σ) s ↔ Q s s := Iff.rfl

theorem wp_bind {Q : β → σ → Prop} (m : Comp σ ε α) (f : α → Comp σ ε β) :
    wp E Q (m >>= f) s ↔ wp E (fun a s => wp E Q (f a) s) m s := by
  unfold wp
  show (match (m s >>= fun r => f r.1 r.2 : Except ε (β × σ)) with
    | .ok r => Q r.1 r.2
    | .error e => E e) ↔ _
  cases m s with
  | error e | ok r => exact Iff.rfl

theorem wp_mono (h : wp E Q m s) (hQR : ∀ a s', Q a s' → R a s') : wp E R m s := by
  unfold wp at *
  split at h
  · exact hQR _ _ h
  · exact h

def guarded (c : Prop) [Decidable c] (m : Comp σ ε Unit) : Comp σ ε Unit :=
  if c then m else pure ()

def zoom {τ : Type} (part : τ → σ) (put : σ → τ → τ) (m : Comp σ ε α) : Comp τ ε α := fun t =>
  match m (part t) with
  | .ok r => .ok (r.1, put r.2 t)
  | .error e => .error e

theorem wp_zoom {τ : Type} {part : τ → σ} {put : σ → τ → τ} {Q : α → τ → Prop} {t : τ} :
    wp E Q (zoom part put m) t ↔ wp E (fun a s' => Q a (put s' t)) m (part t) := by
  unfold wp zoom
  cases m (part t) with
  | error e | ok r => exact Iff.rfl

theorem wp_and (h : wp E Q m s) (h' : wp E R m s) : wp E (fun a s' => Q a s' ∧ R a s') m s := by
  unfold wp at *
  split at h
  · next heq =>
    rw [heq] at h'
    exact ⟨h, h'⟩
  · exact h

theorem wp_ok {a : α} {s' : σ} (h : wp E Q m s) (hm : m s = .ok (a, s')) : Q a s' := by
  unfold wp at h
  rw [hm] at h
  exact h

/-! ## Runs with a known end. -/

theorem bind_ok {m : Comp σ ε α} {f : α → Comp σ ε β} {s s' : σ} {a : α}
    (h : m s = .ok (a, s')) : (m >>= f) s = f a s' := by
  show (m s >>= fun r => f r.1 r.2 : Except ε (β × σ)) = f a s'
  rw [h]
  rfl

theorem get_bind (f : σ → Comp σ ε β) (s : σ) : ((get : Comp σ ε σ) >>= f) s = f s s := rfl

end Comp

end Xv6.Lib
