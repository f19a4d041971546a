import Mathlib.Data.List.Basic
import Mathlib.Logic.Function.Basic

/-! # Computations with effects, charges and exceptions

A computation threads a state, logs its effects and its charges in order, and
answers a value or throws. Two computations agree from a state when they show the
same effects in the same order, end in the same state and answer the same, charges
aside.
-/

namespace XChainVM.Machine

inductive Note (ε : Type) where
  | charge (units : ℕ)
  | effect (e : ε)
  deriving DecidableEq

namespace Note

variable {ε ε' : Type}

def map (f : ε → ε') : Note ε → Note ε'
  | charge units => charge units
  | effect e => effect (f e)

def effect? : Note ε → Option ε
  | charge _ => none
  | effect e => some e

end Note

def visible {ε : Type} (log : List (Note ε)) : List ε := log.filterMap Note.effect?

section Visible

variable {ε ε' : Type}

@[simp] theorem visible_nil : visible ([] : List (Note ε)) = [] := rfl

@[simp] theorem visible_append (s t : List (Note ε)) : visible (s ++ t) = visible s ++ visible t := by
  simp [visible]

@[simp] theorem visible_charge_cons (units : ℕ) (t : List (Note ε)) :
    visible (.charge units :: t) = visible t :=
  List.filterMap_cons_none rfl

@[simp] theorem visible_effect_cons (e : ε) (t : List (Note ε)) :
    visible (.effect e :: t) = e :: visible t :=
  List.filterMap_cons_some rfl

theorem visible_map (f : ε → ε') (t : List (Note ε)) :
    visible (t.map (Note.map f)) = (visible t).map f := by
  induction t with
  | nil => rfl
  | cons n t ih => cases n <;> simp [Note.map, ih]

end Visible

/-- A computation over states `σ` with effects `ε` that throws values of `χ`. -/
def Eff (σ ε χ α : Type) := σ → List (Note ε) × Except χ α × σ

namespace Eff

variable {σ ε ε' χ α β : Type}

protected def pure (a : α) : Eff σ ε χ α := fun s => ([], .ok a, s)

protected def bind (m : Eff σ ε χ α) (f : α → Eff σ ε χ β) : Eff σ ε χ β := fun s =>
  match m s with
  | (t, .ok a, s') => (t ++ (f a s').1, (f a s').2)
  | (t, .error e, s') => (t, .error e, s')

instance : Monad (Eff σ ε χ) where
  pure := Eff.pure
  bind := Eff.bind

def throw (e : χ) : Eff σ ε χ α := fun s => ([], .error e, s)

def state : Eff σ ε χ σ := fun s => ([], .ok s, s)

def charge (units : ℕ) : Eff σ ε χ Unit := fun s => ([.charge units], .ok (), s)

def emit (e : ε) : Eff σ ε χ Unit := fun s => ([.effect e], .ok (), s)

def onFirst {τ : Type} (m : Eff σ ε χ α) : Eff (σ × τ) ε χ α := fun s =>
  ((m s.1).1, (m s.1).2.1, (m s.1).2.2, s.2)

/-- `try m finally n`. -/
def andFinally (m : Eff σ ε χ α) (n : Eff σ ε χ Unit) : Eff σ ε χ α := fun s =>
  match m s with
  | (t, a, s') =>
    match n s' with
    | (t', .ok _, s'') => (t ++ t', a, s'')
    | (t', .error e, s'') => (t ++ t', .error e, s'')

def lift (f : ε → ε') (m : Eff σ ε χ α) : Eff σ ε' χ α := fun s =>
  ((m s).1.map (Note.map f), (m s).2)

theorem pure_apply (a : α) (s : σ) : (pure a : Eff σ ε χ α) s = ([], .ok a, s) := rfl

theorem bind_ok {m : Eff σ ε χ α} {f : α → Eff σ ε χ β} {s s' : σ} {t : List (Note ε)} {a : α}
    (h : m s = (t, .ok a, s')) : (m >>= f) s = (t ++ (f a s').1, (f a s').2) := by
  change Eff.bind m f s = _
  simp only [Eff.bind, h]

theorem bind_error {m : Eff σ ε χ α} {f : α → Eff σ ε χ β} {s s' : σ} {t : List (Note ε)} {e : χ}
    (h : m s = (t, .error e, s')) : (m >>= f) s = (t, .error e, s') := by
  change Eff.bind m f s = _
  simp only [Eff.bind, h]

@[simp] theorem state_bind_apply (f : σ → Eff σ ε χ α) (s : σ) : (state >>= f) s = f s s := by
  rw [bind_ok (rfl : (state : Eff σ ε χ σ) s = _), List.nil_append]

theorem bind_assoc' {γ : Type} (m : Eff σ ε χ α) (f : α → Eff σ ε χ β) (g : β → Eff σ ε χ γ) :
    m >>= f >>= g = m >>= fun a => f a >>= g := by
  funext s
  change Eff.bind (Eff.bind m f) g s = Eff.bind m (fun a => Eff.bind (f a) g) s
  rcases h : m s with ⟨t, e | a, s'⟩
  · simp [Eff.bind, h]
  · rcases h' : f a s' with ⟨t', e | b, s''⟩ <;> simp [Eff.bind, h, h']

theorem id_map' (m : Eff σ ε χ α) : id <$> m = m := by
  funext s
  change Eff.bind m (Eff.pure ∘ id) s = m s
  rcases h : m s with ⟨t, e | a, s'⟩ <;> simp [Eff.bind, Eff.pure, h]

instance : LawfulMonad (Eff σ ε χ) := LawfulMonad.mk' (Eff σ ε χ) id_map' (fun _ _ => rfl) bind_assoc'

/-- The same effects, the same answer and the same state after, charges aside. -/
def Agree (m m' : Eff σ ε χ α) (s : σ) : Prop :=
  visible (m s).1 = visible (m' s).1 ∧ (m s).2 = (m' s).2

theorem Agree.refl (m : Eff σ ε χ α) (s : σ) : Agree m m s := ⟨rfl, rfl⟩

theorem Agree.symm {m m' : Eff σ ε χ α} {s : σ} (h : Agree m m' s) : Agree m' m s :=
  ⟨h.1.symm, h.2.symm⟩

theorem Agree.trans {m m' m'' : Eff σ ε χ α} {s : σ} (h : Agree m m' s) (h' : Agree m' m'' s) :
    Agree m m'' s :=
  ⟨h.1.trans h'.1, h.2.trans h'.2⟩

/-- After the same computation, agreement is agreement of what follows. -/
theorem agree_bind_iff {m : Eff σ ε χ α} {f g : α → Eff σ ε χ β} {s : σ} :
    Agree (m >>= f) (m >>= g) s ↔ ∀ a s', (m s).2 = (.ok a, s') → Agree (f a) (g a) s' := by
  rcases h : m s with ⟨t, e | a, s'⟩
  · simp [Agree, bind_error h]
  · simp [Agree, bind_ok h]

theorem Agree.bind {m m' : Eff σ ε χ α} {f g : α → Eff σ ε χ β} {s : σ} (hm : Agree m m' s)
    (hf : ∀ a s', (m s).2 = (.ok a, s') → Agree (f a) (g a) s') : Agree (m >>= f) (m' >>= g) s := by
  rcases h : m s with ⟨t, e | a, s'⟩ <;> rcases h' : m' s with ⟨t', e' | a', s''⟩ <;>
    obtain ⟨hlog, hend⟩ := hm <;> rw [h, h'] at hlog hend <;> cases hend
  · rw [Agree, bind_error h, bind_error h']
    exact ⟨hlog, rfl⟩
  · rw [h] at hf
    obtain ⟨hvisible, hrest⟩ := hf a s' rfl
    rw [Agree, bind_ok h, bind_ok h']
    simp only at hlog
    exact ⟨by simp [hlog, hvisible], hrest⟩

theorem agree_charge_bind {f : Unit → Eff σ ε χ α} {g : Eff σ ε χ α} {units : ℕ} {s : σ} :
    Agree (charge units >>= f) g s ↔ Agree (f ()) g s := by
  rw [Agree, bind_ok (rfl : (charge units : Eff σ ε χ Unit) s = _)]
  simp [Agree]

theorem agree_congr {m m' n : Eff σ ε χ α} {s s' : σ} (h : m s = m' s') :
    Agree m n s ↔ visible (m' s').1 = visible (n s).1 ∧ (m' s').2 = (n s).2 := by
  rw [Agree, h]

/-- What holds of the answer and of the state where a computation ends. -/
def After (m : Eff σ ε χ α) (s : σ) (p : α → σ → Prop) : Prop :=
  ∀ a s', (m s).2 = (.ok a, s') → p a s'

theorem bind_congr_at {m : Eff σ ε χ α} {f g : α → Eff σ ε χ β} {s : σ}
    (h : After m s fun a s' => f a s' = g a s') : (m >>= f) s = (m >>= g) s := by
  rcases hm : m s with ⟨t, e | a, s'⟩
  · rw [bind_error hm, bind_error hm]
  · rw [bind_ok hm, bind_ok hm, h a s' (by rw [hm])]

def Commutes (m : Eff σ ε χ α) (n : Eff σ ε χ β) (s : σ) : Prop :=
  Agree (do let a ← m; let b ← n; pure (a, b)) (do let b ← n; let a ← m; pure (a, b)) s

theorem Commutes.bind {γ : Type} {m : Eff σ ε χ α} {n : Eff σ ε χ β} {s : σ} (h : Commutes m n s)
    (f : α → β → Eff σ ε χ γ) :
    Agree (do let a ← m; let b ← n; f a b) (do let b ← n; let a ← m; f a b) s := by
  have hPairs := Agree.bind h (f := fun p => f p.1 p.2) (g := fun p => f p.1 p.2)
    fun _ _ _ => Agree.refl _ _
  simpa only [bind_assoc, pure_bind] using hPairs

/-- From two states, the same effects among those of a kind and the same answer. -/
def AgreeOn (kind : ε → Bool) (m m' : Eff σ ε χ α) (s s' : σ) : Prop :=
  (visible (m s).1).filter kind = (visible (m' s').1).filter kind ∧ (m s).2.1 = (m' s').2.1

namespace AgreeOn

variable {kind : ε → Bool} {m m' m'' : Eff σ ε χ α} {s s' s'' : σ}

theorem symm (h : AgreeOn kind m m' s s') : AgreeOn kind m' m s' s := ⟨h.1.symm, h.2.symm⟩

theorem trans (h : AgreeOn kind m m' s s') (h' : AgreeOn kind m' m'' s' s'') : AgreeOn kind m m'' s s'' :=
  ⟨h.1.trans h'.1, h.2.trans h'.2⟩

/-- Computations that agree, the state they end in included, may stand for each other before
anything else. -/
theorem bind_of_state {f : α → Eff σ ε χ β}
    (h : AgreeOn kind (do let a ← m; let s ← state; pure (a, s)) (do let a ← m'; let s ← state; pure (a, s)) s s') :
    AgreeOn kind (m >>= f) (m' >>= f) s s' := by
  have hok {n : Eff σ ε χ α} {s₀ s₁ : σ} {t : List (Note ε)} {a : α} (hn : n s₀ = (t, .ok a, s₁)) :
      (do let a ← n; let s ← state; pure (a, s) : Eff σ ε χ (α × σ)) s₀ = (t, .ok (a, s₁), s₁) := by
    rw [bind_ok hn, state_bind_apply, pure_apply, List.append_nil]
  rcases hm : m s with ⟨t, e | a, s₁⟩ <;> rcases hm' : m' s' with ⟨t', e' | a', s₂⟩
  · rw [AgreeOn, bind_error hm, bind_error hm'] at h
    rw [AgreeOn, bind_error hm, bind_error hm']
    exact ⟨h.1, congrArg Except.error (Except.error.inj h.2)⟩
  · rw [AgreeOn, bind_error hm, hok hm'] at h
    cases h.2
  · rw [AgreeOn, hok hm, bind_error hm'] at h
    cases h.2
  · rw [AgreeOn, hok hm, hok hm'] at h
    obtain ⟨hlog, hend⟩ := h
    cases hend
    simp only at hlog
    rw [AgreeOn, bind_ok hm, bind_ok hm']
    exact ⟨by simp [hlog], rfl⟩

end AgreeOn

/-- After the same computation, agreement is agreement of what follows. -/
theorem agreeOn_bind_iff {kind : ε → Bool} {m : Eff σ ε χ α} {f g : α → Eff σ ε χ β} {s : σ} :
    AgreeOn kind (m >>= f) (m >>= g) s s ↔ After m s fun a s' => AgreeOn kind (f a) (g a) s' s' := by
  rcases h : m s with ⟨t, e | a, s'⟩
  · simp [AgreeOn, After, bind_error h, h]
  · simp [AgreeOn, After, bind_ok h, h]

theorem Agree.agreeOn {m m' : Eff σ ε χ α} {s : σ} (h : Agree m m' s) (kind : ε → Bool) :
    AgreeOn kind m m' s s :=
  ⟨congrArg _ h.1, congrArg Prod.fst h.2⟩

theorem agreeOn_map_iff {g : α → β} (hg : g.Injective) {kind : ε → Bool} {m m' : Eff σ ε χ α} {s s' : σ} :
    AgreeOn kind (g <$> m) (g <$> m') s s' ↔ AgreeOn kind m m' s s' := by
  simp only [← bind_pure_comp]
  rcases h : m s with ⟨t, e | a, s₁⟩ <;> rcases h' : m' s' with ⟨t', e' | a', s₂⟩
  · simp [AgreeOn, bind_error h, bind_error h', h, h']
  · simp [AgreeOn, bind_error h, bind_ok h', h, h', pure_apply]
  · simp [AgreeOn, bind_ok h, bind_error h', h, h', pure_apply]
  · simp [AgreeOn, bind_ok h, bind_ok h', h, h', pure_apply, hg.eq_iff]

/-- Two computations that may be run in either order, as far as effects of a kind go. -/
def CommutesOn (kind : ε → Bool) (m : Eff σ ε χ α) (n : Eff σ ε χ β) (s : σ) : Prop :=
  AgreeOn kind (do let a ← m; let b ← n; let s ← state; pure ((a, b), s))
    (do let b ← n; let a ← m; let s ← state; pure ((a, b), s)) s s

theorem CommutesOn.bind {γ : Type} {kind : ε → Bool} {m : Eff σ ε χ α} {n : Eff σ ε χ β} {s : σ}
    (h : CommutesOn kind m n s) (f : α → β → Eff σ ε χ γ) :
    AgreeOn kind (do let a ← m; let b ← n; f a b) (do let b ← n; let a ← m; f a b) s s := by
  have hState : AgreeOn kind (do let p ← (do let a ← m; let b ← n; pure (a, b)); let s ← state; pure (p, s))
      (do let p ← (do let b ← n; let a ← m; pure (a, b)); let s ← state; pure (p, s)) s s := by
    simpa only [CommutesOn, bind_assoc, pure_bind] using h
  have hPairs := AgreeOn.bind_of_state hState (f := fun p => f p.1 p.2)
  simpa only [bind_assoc, pure_bind] using hPairs

def Answers (m : Eff σ ε χ α) (p : α → Prop) : Prop := ∀ s a s', (m s).2 = (.ok a, s') → p a

theorem answers_pure {a : α} {p : α → Prop} (h : p a) : Answers (pure a : Eff σ ε χ α) p := by
  intro s b s' hb
  cases hb
  exact h

theorem Answers.bind {m : Eff σ ε χ α} {f : α → Eff σ ε χ β} {p : α → Prop} {q : β → Prop}
    (hm : Answers m p) (hf : ∀ a, p a → Answers (f a) q) : Answers (m >>= f) q := by
  intro s b s' hb
  rcases h : m s with ⟨t, e | a, s₁⟩
  · rw [bind_error h] at hb
    cases hb
  · rw [bind_ok h] at hb
    exact hf a (hm s a s₁ (by rw [h])) s₁ b s' hb

theorem answers_bind {m : Eff σ ε χ α} {f : α → Eff σ ε χ β} {q : β → Prop}
    (hf : ∀ a, Answers (f a) q) : Answers (m >>= f) q :=
  Answers.bind (p := fun _ => True) (fun _ _ _ _ => trivial) fun a _ => hf a

def Shows (e : ε) (m : Eff σ ε χ α) (s : σ) : Prop := e ∈ visible (m s).1

theorem Shows.bind_left {e : ε} {m : Eff σ ε χ α} {s : σ} (h : Shows e m s) (f : α → Eff σ ε χ β) :
    Shows e (m >>= f) s := by
  rw [Shows] at h ⊢
  rcases hm : m s with ⟨t, x | a, s'⟩ <;> rw [hm] at h
  · rwa [bind_error hm]
  · rw [bind_ok hm, visible_append]
    exact List.mem_append_left _ h

theorem Shows.bind_right {e : ε} {m : Eff σ ε χ α} {f : α → Eff σ ε χ β} {a : α} {s s' : σ}
    (hm : (m s).2 = (.ok a, s')) (h : Shows e (f a) s') : Shows e (m >>= f) s := by
  rw [Shows] at h ⊢
  have heq : m s = ((m s).1, .ok a, s') := Prod.ext rfl hm
  rw [bind_ok heq, visible_append]
  exact List.mem_append_right _ h

def Avoids (e : ε) (m : Eff σ ε χ α) : Prop := ∀ s, e ∉ visible (m s).1

theorem avoids_pure (e : ε) (a : α) : Avoids e (pure a : Eff σ ε χ α) := fun s => by
  simp [pure_apply]

theorem Avoids.bind {e : ε} {m : Eff σ ε χ α} {f : α → Eff σ ε χ β} (hm : Avoids e m)
    (hf : ∀ a, Avoids e (f a)) : Avoids e (m >>= f) := by
  intro s
  have hs := hm s
  rcases h : m s with ⟨t, x | a, s'⟩
  · rw [bind_error h]
    rwa [h] at hs
  · rw [bind_ok h]
    rw [h] at hs
    simp only [visible_append, List.mem_append, not_or]
    exact ⟨hs, hf a s'⟩

theorem avoids_emit {e e' : ε} (h : e ≠ e') : Avoids e (emit e' : Eff σ ε χ Unit) := fun s => by
  simp [emit, h]

theorem avoids_lift {f : ε → ε'} {e : ε'} (h : ∀ x, f x ≠ e) (m : Eff σ ε χ α) :
    Avoids e (lift f m) := by
  intro s hmem
  rw [lift, visible_map, List.mem_map] at hmem
  obtain ⟨x, -, hx⟩ := hmem
  exact h x hx

end Eff

end XChainVM.Machine
