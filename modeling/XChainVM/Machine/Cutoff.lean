import XChainVM.Machine.Effects

/-! # Runs that may be cut off

A run that uses up what it is given is cut off. That is no exception: no handler sees it and nothing
runs after it.
-/

namespace XChainVM.Machine

abbrev Cut (τ ε χ α : Type) := Eff τ ε (Option χ) α

namespace Cut

variable {τ ε χ α β : Type}

def cutOff : Cut τ ε χ α := Eff.throw none

def raise (e : χ) : Cut τ ε χ α := Eff.throw (some e)

def answer (a : Except χ α) : Cut τ ε χ α := fun s => ([], a.mapError some, s)

@[simp] theorem answer_ok (a : α) : answer (.ok a) = (pure a : Cut τ ε χ α) := rfl

def change (m : τ → Except χ α × τ) : Cut τ ε χ α := fun s => ([], (m s).1.mapError some, (m s).2)

def resume (m : Cut τ ε χ α) (k : Except χ α → Cut τ ε χ β) : Cut τ ε χ β := fun s =>
  match m s with
  | (t, .error none, s') => (t, .error none, s')
  | (t, .error (some e), s') => (t ++ (k (.error e) s').1, (k (.error e) s').2)
  | (t, .ok a, s') => (t ++ (k (.ok a) s').1, (k (.ok a) s').2)

/-- `try m finally n`. -/
def ending (m : Cut τ ε χ α) (n : Cut τ ε χ Unit) : Cut τ ε χ α := resume m fun a => do
  n
  answer a

/-- `try m catch h`. -/
def attempt (m : Cut τ ε χ α) (h : Cut τ ε χ α) : Cut τ ε χ α := resume m fun
  | .ok a => pure a
  | .error _ => h

theorem cut_or_answered (x : Except (Option χ) α) : x = .error none ∨ ∃ a : Except χ α, x = a.mapError some := by
  rcases x with (_ | e) | a
  · exact .inl rfl
  · exact .inr ⟨.error e, rfl⟩
  · exact .inr ⟨.ok a, rfl⟩

variable {m : Cut τ ε χ α} {k : Except χ α → Cut τ ε χ β} {n : Cut τ ε χ Unit} {s s' : τ} {t : List (Note ε)}

theorem resume_cut (hm : m s = (t, .error none, s')) : resume m k s = (t, .error none, s') := by
  simp only [resume, hm]

theorem resume_of {a : Except χ α} (hm : m s = (t, a.mapError some, s')) :
    resume m k s = (t ++ (k a s').1, (k a s').2) := by
  cases a <;> simp only [resume, hm, Except.mapError]

theorem resume_ok {a : α} (hm : m s = (t, .ok a, s')) :
    resume m k s = (t ++ (k (.ok a) s').1, (k (.ok a) s').2) :=
  resume_of (a := .ok a) hm

/-- A step that succeeds is left out of the `try`. -/
theorem ending_bind {f : α → Cut τ ε χ β} {a : α} (hm : m s = (t, .ok a, s')) :
    ending (m >>= f) n s = (m >>= fun a => ending (f a) n) s := by
  rw [Eff.bind_ok hm, ending]
  rcases h : f a s' with ⟨t', x, s''⟩
  have hx : (m >>= f) s = (t ++ t', x, s'') := by rw [Eff.bind_ok hm, h]
  obtain rfl | ⟨b, rfl⟩ := cut_or_answered x
  · rw [resume_cut hx, ending, resume_cut h]
  · rw [resume_of hx, ending, resume_of h, List.append_assoc]

/-- An ending that does nothing. -/
theorem ending_idle {x : Except (Option χ) α} (hm : m s = (t, x, s')) (hn : n s' = ([], .ok (), s')) :
    ending m n s = m s := by
  rw [hm]
  obtain rfl | ⟨a, rfl⟩ := cut_or_answered x
  · exact resume_cut hm
  · rw [ending, resume_of hm, Eff.bind_ok hn]
    simp [answer]

theorem resume_answer (m : Cut τ ε χ α) : resume m answer = m := by
  funext s
  rcases hm : m s with ⟨t, x, s'⟩
  obtain rfl | ⟨a, rfl⟩ := cut_or_answered x
  · rw [resume_cut hm]
  · rw [resume_of hm]
    simp [answer]

end Cut

end XChainVM.Machine
