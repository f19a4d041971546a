import XChainVM.Machine.Cutoff

/-! # Two runs side by side

Two runs from two states are alike when they show the same effects, end in the same way and leave states
that are related. This is asked only where the first run has none of the effects that are excluded.
-/

namespace XChainVM.Machine.Cut

variable {τ τ' ε χ α α' β β' : Type}

/-- How runs end: with answers and states related by `V`, with the same exception and states related by
`E`, or both cut off. -/
def Ends (V : α → τ → α' → τ' → Prop) (E : τ → τ' → Prop) :
    Except (Option χ) α × τ → Except (Option χ) α' × τ' → Prop
  | (.ok a, s), (.ok a', s') => V a s a' s'
  | (.error (some e), s), (.error (some e'), s') => e = e' ∧ E s s'
  | (.error none, _), (.error none, _) => True
  | _, _ => False

def Without (excluded : ε → Prop) (log : List (Note ε)) : Prop := ∀ e ∈ visible log, ¬excluded e

def Alike (excluded : ε → Prop) (V : α → τ → α' → τ' → Prop) (E : τ → τ' → Prop) (m : Cut τ ε χ α)
    (m' : Cut τ' ε χ α') (s : τ) (s' : τ') : Prop :=
  Without excluded (m s).1 → visible (m s).1 = visible (m' s').1 ∧ Ends V E (m s).2 (m' s').2

variable {excluded : ε → Prop} {V : α → τ → α' → τ' → Prop} {U : β → τ → β' → τ' → Prop} {E : τ → τ' → Prop}
  {m : Cut τ ε χ α} {m' : Cut τ' ε χ α'} {f : α → Cut τ ε χ β} {f' : α' → Cut τ' ε χ β'} {s : τ} {s' : τ'}

theorem without_append {l l' : List (Note ε)} :
    Without excluded (l ++ l') ↔ Without excluded l ∧ Without excluded l' := by
  simp only [Without, visible_append, List.mem_append, or_imp, forall_and]

theorem alike_pure {a : α} {a' : α'} (h : V a s a' s') :
    Alike excluded V E (pure a : Cut τ ε χ α) (pure a') s s' :=
  fun _ => ⟨rfl, h⟩

theorem alike_raise (e : χ) (h : E s s') : Alike excluded V E (raise e : Cut τ ε χ α) (raise e) s s' :=
  fun _ => ⟨rfl, rfl, h⟩

theorem alike_cutOff : Alike excluded V E (cutOff : Cut τ ε χ α) cutOff s s' := fun _ => ⟨rfl, trivial⟩

theorem Alike.bind (hm : Alike excluded V E m m' s s')
    (hf : ∀ a t a' t', V a t a' t' → Alike excluded U E (f a) (f' a') t t') :
    Alike excluded U E (m >>= f) (m' >>= f') s s' := by
  intro hwithout
  rcases h : m s with ⟨l, x, t⟩
  rcases h' : m' s' with ⟨l', x', t'⟩
  have hboth (hl : Without excluded l) : visible l = visible l' ∧ Ends V E (x, t) (x', t') := by
    rw [Alike, h, h'] at hm
    exact hm hl
  rcases x with e | a
  · rw [Eff.bind_error h] at hwithout ⊢
    obtain ⟨hvisible, hends⟩ := hboth hwithout
    rcases x' with e' | a'
    · rw [Eff.bind_error h']
      refine ⟨hvisible, ?_⟩
      rcases e with _ | e <;> rcases e' with _ | e' <;> exact hends
    · rcases e with _ | e <;> exact hends.elim
  · rw [Eff.bind_ok h] at hwithout ⊢
    obtain ⟨hl, hrest⟩ := without_append.mp hwithout
    obtain ⟨hvisible, hends⟩ := hboth hl
    rcases x' with e' | a'
    · rcases e' with _ | e' <;> exact hends.elim
    · obtain ⟨hvisible', hends'⟩ := hf a t a' t' hends hrest
      rw [Eff.bind_ok h']
      exact ⟨by rw [visible_append, visible_append, hvisible, hvisible'], hends'⟩

/-- Steps that succeed on both sides. -/
theorem alike_step {l l' : List (Note ε)} {a : α} {a' : α'} {t : τ} {t' : τ'} (hm : m s = (l, .ok a, t))
    (hm' : m' s' = (l', .ok a', t')) (hvisible : visible l = visible l')
    (hf : Alike excluded U E (f a) (f' a') t t') : Alike excluded U E (m >>= f) (m' >>= f') s s' := by
  intro hwithout
  rw [Eff.bind_ok hm] at hwithout ⊢
  rw [Eff.bind_ok hm']
  obtain ⟨hvisible', hends⟩ := hf (without_append.mp hwithout).2
  exact ⟨by rw [visible_append, visible_append, hvisible, hvisible'], hends⟩

/-- A step of the first run alone. -/
theorem alike_left {m' : Cut τ' ε χ β'} {l : List (Note ε)} {a : α} {t : τ} (hm : m s = (l, .ok a, t))
    (hl : visible l = []) (hf : Alike excluded U E (f a) m' t s') : Alike excluded U E (m >>= f) m' s s' := by
  intro hwithout
  rw [Eff.bind_ok hm] at hwithout ⊢
  obtain ⟨hvisible, hends⟩ := hf (without_append.mp hwithout).2
  exact ⟨by rw [visible_append, hl, List.nil_append, hvisible], hends⟩

theorem Alike.mono {W : α → τ → α' → τ' → Prop} {G : τ → τ' → Prop} (hm : Alike excluded V E m m' s s')
    (hV : ∀ a t a' t', V a t a' t' → W a t a' t') (hE : ∀ t t', E t t' → G t t') :
    Alike excluded W G m m' s s' := by
  intro hwithout
  obtain ⟨hvisible, hends⟩ := hm hwithout
  refine ⟨hvisible, ?_⟩
  rcases h : (m s).2 with ⟨(_ | e) | a, t⟩ <;> rcases h' : (m' s').2 with ⟨(_ | e') | a', t'⟩ <;>
    rw [h, h'] at hends
  · trivial
  · exact hends.elim
  · exact hends.elim
  · exact hends.elim
  · exact ⟨hends.1, hE _ _ hends.2⟩
  · exact hends.elim
  · exact hends.elim
  · exact hends.elim
  · exact hV _ _ _ _ hends

theorem Alike.resume {G : τ → τ' → Prop} {k : Except χ α → Cut τ ε χ β} {k' : Except χ α' → Cut τ' ε χ β'}
    (hm : Alike excluded V G m m' s s')
    (hok : ∀ a t a' t', V a t a' t' → Alike excluded U E (k (.ok a)) (k' (.ok a')) t t')
    (herror : ∀ e t t', G t t' → Alike excluded U E (k (.error e)) (k' (.error e)) t t') :
    Alike excluded U E (resume m k) (resume m' k') s s' := by
  intro hwithout
  rcases h : m s with ⟨l, x, t⟩
  rcases h' : m' s' with ⟨l', x', t'⟩
  have hboth (hl : Without excluded l) : visible l = visible l' ∧ Ends V G (x, t) (x', t') := by
    rw [Alike, h, h'] at hm
    exact hm hl
  obtain rfl | ⟨a, rfl⟩ := cut_or_answered x
  · rw [resume_cut h] at hwithout ⊢
    obtain ⟨hvisible, hends⟩ := hboth hwithout
    rcases x' with (_ | e') | a'
    · rw [resume_cut h']
      exact ⟨hvisible, trivial⟩
    · exact hends.elim
    · exact hends.elim
  · rw [resume_of h] at hwithout ⊢
    obtain ⟨hl, hrest⟩ := without_append.mp hwithout
    obtain ⟨hvisible, hends⟩ := hboth hl
    rcases a with e | a <;> rcases x' with (_ | e') | a'
    · exact hends.elim
    · obtain ⟨rfl, hG⟩ := hends
      obtain ⟨hvisible', hends'⟩ := herror e t t' hG hrest
      rw [resume_of (a := .error e) h']
      exact ⟨by rw [visible_append, visible_append, hvisible, hvisible'], hends'⟩
    · exact hends.elim
    · exact hends.elim
    · exact hends.elim
    · obtain ⟨hvisible', hends'⟩ := hok a t a' t' hends hrest
      rw [resume_ok h']
      exact ⟨by rw [visible_append, visible_append, hvisible, hvisible'], hends'⟩

end XChainVM.Machine.Cut
