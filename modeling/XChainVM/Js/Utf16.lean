import Mathlib.Data.List.Lex

/-! # The order of strings

Strings are compared by their UTF-16 code units, which is not the order of their characters.
-/

namespace XChainVM.Js

def units (c : Char) : List ℕ :=
  if c.toNat < 0x10000 then [c.toNat]
  else [0xD800 + (c.toNat - 0x10000) / 0x400, 0xDC00 + (c.toNat - 0x10000) % 0x400]

def utf16 (s : String) : List ℕ := s.toList.flatMap units

/-- `s < t` -/
def before (s t : String) : Bool := utf16 s < utf16 t

theorem not_surrogate (c : Char) : c.toNat < 0xD800 ∨ 0xE000 ≤ c.toNat ∧ c.toNat < 0x110000 := by
  obtain hlow | ⟨hhigh, hlimit⟩ := c.valid
  · exact .inl hlow
  · exact .inr ⟨by change 0xDFFF < c.toNat at hhigh; omega, hlimit⟩

/-- No character's units begin another's. -/
theorem units_append_inj {c d : Char} {xs ys : List ℕ} (h : units c ++ xs = units d ++ ys) : c = d ∧ xs = ys := by
  have hc := not_surrogate c
  have hd := not_surrogate d
  suffices hnat : c.toNat = d.toNat ∧ xs = ys from ⟨Char.toNat_inj.mp hnat.1, hnat.2⟩
  unfold units at h
  split at h
  all_goals
    split at h
    all_goals
      simp only [List.cons_append, List.nil_append, List.cons.injEq] at h
  · exact h
  · omega
  · omega
  · obtain ⟨hhigh, hlow, hrest⟩ := h
    exact ⟨by omega, hrest⟩

theorem units_ne_nil (c : Char) : units c ≠ [] := by
  unfold units
  split
  · exact List.cons_ne_nil _ _
  · exact List.cons_ne_nil _ _

theorem utf16_injective : Function.Injective utf16 := by
  suffices h : ∀ cs ds : List Char, cs.flatMap units = ds.flatMap units → cs = ds by
    intro s t hst
    exact String.toList_inj.mp (h _ _ hst)
  intro cs
  induction cs with
  | nil =>
    intro ds h
    cases ds with
    | nil => rfl
    | cons d ds => exact absurd (List.append_eq_nil_iff.mp h.symm).1 (units_ne_nil d)
  | cons c cs ih =>
    intro ds h
    cases ds with
    | nil => exact absurd (List.append_eq_nil_iff.mp h).1 (units_ne_nil c)
    | cons d ds =>
      obtain ⟨rfl, hrest⟩ := units_append_inj h
      rw [ih ds hrest]

/-- A character outside the first plane comes before one at the end of it. -/
example : before "😀" "～" = true ∧ '～' < '😀' := by decide

end XChainVM.Js
