import Mathlib.Logic.Basic

/-! # Computations that may throw

A computation over a state either returns or throws, and in both cases leaves a state. Its
specification says what holds of the state and the result in each case; specifications compose
along `bind`.
-/

namespace XChainVM.Machine

universe u

theorem bind_ok {ε α β : Type u} {x : Except ε α} {f : α → Except ε β} {b : β}
    (h : (x >>= f) = .ok b) : ∃ a, x = .ok a ∧ f a = .ok b := by
  cases x with
  | error e => exact absurd h (by simp [bind, Except.bind])
  | ok a => exact ⟨a, rfl, h⟩

theorem bind_eq_ok_iff {ε α β : Type u} {x : Except ε α} {f : α → Except ε β} {b : β} :
    (x >>= f) = .ok b ↔ ∃ a, x = .ok a ∧ f a = .ok b := by
  constructor
  · exact bind_ok
  · rintro ⟨a, rfl, h⟩
    exact h

variable {ε σ α β : Type u}

theorem bind_apply (m : EStateM ε σ α) (f : α → EStateM ε σ β) (s : σ) :
    (m >>= f) s = match m s with
      | .ok a s' => f a s'
      | .error e s' => .error e s' := by
  change EStateM.bind m f s = _
  unfold EStateM.bind
  cases m s <;> rfl

theorem map_apply (f : α → β) (m : EStateM ε σ α) (s : σ) :
    (f <$> m) s = match m s with
      | .ok a s' => .ok (f a) s'
      | .error e s' => .error e s' := by
  change EStateM.map f m s = _
  unfold EStateM.map
  cases m s <;> rfl

theorem pure_apply (a : α) (s : σ) : (pure a : EStateM ε σ α) s = .ok a s := rfl

/-- From `s` the computation returns as `returned` says or throws as `threw` says. -/
def Ends (m : EStateM ε σ α) (s : σ) (returned : α → σ → Prop) (threw : ε → σ → Prop) : Prop :=
  match m s with
  | .ok a s' => returned a s'
  | .error e s' => threw e s'

namespace Ends

variable {m : EStateM ε σ α} {f : α → EStateM ε σ β} {s : σ} {threw : ε → σ → Prop}

theorem mono {returned returned' : α → σ → Prop} (h : Ends m s returned threw)
    (hreturn : ∀ a s', returned a s' → returned' a s') : Ends m s returned' threw := by
  unfold Ends at h ⊢
  cases hm : m s with
  | ok a s' =>
    simp only [hm] at h ⊢
    exact hreturn a s' h
  | error e s' =>
    simp only [hm] at h ⊢
    exact h

protected theorem pure {returned : α → σ → Prop} {a : α} (h : returned a s) :
    Ends (pure a : EStateM ε σ α) s returned threw := h

/-- The rule of sequence: what the first part leaves is where the second starts. -/
protected theorem bind {returned : α → σ → Prop} {returned' : β → σ → Prop}
    (h : Ends m s returned threw) (hf : ∀ a s', returned a s' → Ends (f a) s' returned' threw) :
    Ends (m >>= f) s returned' threw := by
  unfold Ends at h ⊢
  rw [bind_apply]
  cases hm : m s with
  | ok a s' =>
    simp only [hm] at h
    exact hf a s' h
  | error e s' =>
    simp only [hm] at h
    exact h

end Ends

end XChainVM.Machine
