import Mathlib.Algebra.Order.Monoid.Unbundled.WithTop
import Mathlib.Algebra.Order.Ring.Rat
import Mathlib.Tactic.Linarith
import XChainVM.Js.Value

/-! # The gas tracker

One tracker meters one execution. Its sum is the machine's addition of finite
amounts, of which only one law is used: adding a non-negative amount never
rounds below the old total, and a sum past the largest number is infinite. A
charge that crosses the ceiling raises the sticky flag and throws; nothing
lowers the total or the flag again.
-/

namespace XChainVM.Gas

open Js

/-- The ceiling of one execution. A request that is not a positive integer below
the configured ceiling falls back to the configured ceiling. -/
def effectiveCeiling (requested : Value) (configCeiling : ℚ) : ℚ :=
  match requested with
  | .number (.finite q) => if q.isInt ∧ 0 < q ∧ q < configCeiling then q else configCeiling
  | _ => configCeiling

/-- Addition of gas amounts. Exact sums satisfy the law, and so does rounding to
the nearest representable number. -/
structure Addition where
  add : WithTop ℚ → ℚ → WithTop ℚ
  le_add : ∀ used amount, 0 ≤ amount → used ≤ add used amount

def Addition.exact : Addition where
  add used amount := used + amount
  le_add used amount h := le_add_of_nonneg_right (by exact_mod_cast h)

structure GasTracker where
  ceiling : ℚ
  used : WithTop ℚ
  exhausted : Bool
  deriving DecidableEq

/-- What a charge throws: an amount that is not a non-negative finite number is
refused before it is added, and a crossed ceiling reports the total. -/
inductive ChargeError where
  | invalidAmount
  | exhausted (used : WithTop ℚ) (ceiling : ℚ)
  deriving DecidableEq

theorem effectiveCeiling_nonneg {configCeiling : ℚ} (h : 0 ≤ configCeiling) (requested : Value) :
    0 ≤ effectiveCeiling requested configCeiling := by
  cases requested with
  | number n =>
    cases n with
    | finite q =>
      simp only [effectiveCeiling]
      split
      · next hq => exact hq.2.1.le
      · exact h
    | _ => exact h
  | _ => exact h

theorem effectiveCeiling_le (requested : Value) (configCeiling : ℚ) :
    effectiveCeiling requested configCeiling ≤ configCeiling := by
  cases requested with
  | number n =>
    cases n with
    | finite q =>
      simp only [effectiveCeiling]
      split
      · next hq => exact hq.2.2.le
      · exact le_rfl
    | _ => exact le_rfl
  | _ => exact le_rfl

/-- A reservation that fits the configured ceiling is the callee's ceiling, also
when it takes the whole of it. -/
theorem effectiveCeiling_reservation {q configCeiling : ℚ} (hint : q.isInt = true) (hpos : 0 < q)
    (hle : q ≤ configCeiling) : effectiveCeiling (.number (.finite q)) configCeiling = q := by
  simp only [effectiveCeiling]
  split
  · rfl
  · next h =>
    have hnlt : ¬ q < configCeiling := fun hlt => h ⟨hint, hpos, hlt⟩
    exact le_antisymm (not_lt.mp hnlt) hle

namespace GasTracker

def new (ceiling : ℚ) : GasTracker := ⟨ceiling, 0, false⟩

def charge (sum : Addition) (t : GasTracker) (amount : Number) : Option ChargeError × GasTracker :=
  match amount with
  | .finite q =>
    if q < 0 then (some .invalidAmount, t)
    else
      let used := sum.add t.used q
      if (t.ceiling : WithTop ℚ) < used then
        (some (.exhausted used t.ceiling), { t with used, exhausted := true })
      else (none, { t with used })
  | _ => (some .invalidAmount, t)

/-- The flag is raised exactly when the total is above the ceiling. -/
structure Consistent (t : GasTracker) : Prop where
  below : t.exhausted = false → t.used ≤ t.ceiling
  above : t.exhausted = true → (t.ceiling : WithTop ℚ) < t.used

theorem Consistent.new {ceiling : ℚ} (h : 0 ≤ ceiling) : Consistent (new ceiling) where
  below _ := by
    have hle : (0 : WithTop ℚ) ≤ (ceiling : WithTop ℚ) := by exact_mod_cast h
    exact hle
  above h := nomatch h

theorem Consistent.exhausted_iff {t : GasTracker} (h : t.Consistent) :
    t.exhausted = true ↔ (t.ceiling : WithTop ℚ) < t.used := by
  constructor
  · exact h.above
  · intro hlt
    by_contra hex
    exact absurd hlt (not_lt.mpr (h.below (Bool.not_eq_true _ ▸ hex)))

variable (sum : Addition) (t : GasTracker) (amount : Number)

/-- What one charge does: refuse the amount, keep within the ceiling, or cross it. -/
theorem charge_cases :
    (t.charge sum amount = (some .invalidAmount, t)) ∨
    (∃ q, amount = .finite q ∧ 0 ≤ q ∧ sum.add t.used q ≤ t.ceiling ∧
      t.charge sum amount = (none, { t with used := sum.add t.used q })) ∨
    (∃ q, amount = .finite q ∧ 0 ≤ q ∧ (t.ceiling : WithTop ℚ) < sum.add t.used q ∧
      t.charge sum amount = (some (.exhausted (sum.add t.used q) t.ceiling),
        { t with used := sum.add t.used q, exhausted := true })) := by
  cases amount with
  | finite q =>
    by_cases hq : q < 0
    · exact .inl (by simp [charge, hq])
    · by_cases hc : (t.ceiling : WithTop ℚ) < sum.add t.used q
      · exact .inr (.inr ⟨q, rfl, not_lt.mp hq, hc, by simp [charge, hq, hc]⟩)
      · exact .inr (.inl ⟨q, rfl, not_lt.mp hq, not_lt.mp hc, by simp [charge, hq, hc]⟩)
  | nan => exact .inl rfl
  | infinity s => exact .inl rfl

@[simp] theorem charge_ceiling : (t.charge sum amount).2.ceiling = t.ceiling := by
  obtain h | ⟨q, -, -, -, h⟩ | ⟨q, -, -, -, h⟩ := charge_cases sum t amount <;> simp [h]

theorem used_le_charge : t.used ≤ (t.charge sum amount).2.used := by
  obtain h | ⟨q, -, hq, -, h⟩ | ⟨q, -, hq, -, h⟩ := charge_cases sum t amount
  · simp [h]
  · simpa [h] using sum.le_add t.used q hq
  · simpa [h] using sum.le_add t.used q hq

theorem exhausted_charge (h : t.exhausted = true) : (t.charge sum amount).2.exhausted = true := by
  obtain h' | ⟨q, -, -, -, h'⟩ | ⟨q, -, -, -, h'⟩ := charge_cases sum t amount <;> simp [h', h]

variable {sum t amount}

/-- A charge that does not throw stays within the ceiling and raises no flag. -/
theorem charge_none {t' : GasTracker} (h : t.charge sum amount = (none, t')) :
    ∃ q, amount = .finite q ∧ 0 ≤ q ∧ sum.add t.used q ≤ t.ceiling ∧
      t' = { t with used := sum.add t.used q } := by
  obtain h' | ⟨q, rfl, hq, hle, h'⟩ | ⟨q, -, -, -, h'⟩ := charge_cases sum t amount
  · simp [h'] at h
  · exact ⟨q, rfl, hq, hle, by simpa [h'] using h.symm⟩
  · simp [h'] at h

theorem charge_keeps_flag (h : (t.charge sum amount).1 = none) (hex : t.exhausted = false) :
    (t.charge sum amount).2.exhausted = false := by
  have hreturn : t.charge sum amount = (none, (t.charge sum amount).2) := Prod.ext h rfl
  obtain ⟨q, -, -, -, hcharged⟩ := charge_none hreturn
  rw [hcharged]
  exact hex

theorem Consistent.charge (h : t.Consistent) : (t.charge sum amount).2.Consistent := by
  obtain h' | ⟨q, -, hq, hle, h'⟩ | ⟨q, -, hq, hlt, h'⟩ := charge_cases sum t amount
  · rw [h']
    exact h
  · rw [h']
    refine ⟨fun _ => hle, fun hex => ?_⟩
    have habove : (t.ceiling : WithTop ℚ) < t.used := h.above hex
    exact habove.trans_le (sum.le_add t.used q hq)
  · rw [h']
    exact ⟨nofun, fun _ => hlt⟩

/-- Once the total is above the ceiling every charge throws, whatever its amount. -/
theorem Consistent.charge_throws (h : t.Consistent) (hex : t.exhausted = true) :
    (t.charge sum amount).1 ≠ none := by
  intro hnone
  have hreturn : t.charge sum amount = (none, (t.charge sum amount).2) := Prod.ext hnone rfl
  obtain ⟨q, -, hq, hle, -⟩ := charge_none hreturn
  have hgrow : t.used ≤ sum.add t.used q := sum.le_add t.used q hq
  exact absurd (h.above hex) (not_lt.mpr (hgrow.trans hle))

end GasTracker

end XChainVM.Gas
