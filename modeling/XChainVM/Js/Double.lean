import Mathlib.Algebra.Order.Field.Power
import Mathlib.Data.Int.Log
import Mathlib.Data.Rat.Floor
import Mathlib.Tactic.FieldSimp
import Mathlib.Tactic.NormNum
import XChainVM.Js.Value

/-! # Doubles

A finite number of the language is a rational, and an operation answers the double nearest to the exact
result, the even one of two.
-/

namespace XChainVM.Js

/-- The whole number nearest to `q`, the even one of two. -/
def roundHalfEven (q : ℚ) : ℤ :=
  let excess := q - q.floor
  if excess < 1 / 2 then q.floor
  else if 1 / 2 < excess then q.floor + 1
  else if q.floor % 2 = 0 then q.floor
  else q.floor + 1

/-- Doubles near `q` are this power of two apart. -/
def spacing (q : ℚ) : ℤ := max (Int.log 2 |q| - 52) (-1074)

/-- The double nearest to `q`. -/
def roundDouble (q : ℚ) : Number :=
  let r : ℚ := roundHalfEven (q / 2 ^ spacing q) * 2 ^ spacing q
  if 2 ^ 1024 ≤ |r| then .infinity (decide (q < 0)) else .finite r

@[simp] theorem roundHalfEven_intCast (z : ℤ) : roundHalfEven z = z := by
  unfold roundHalfEven
  rw [Rat.floor_intCast, sub_self]
  exact if_pos (by norm_num)

/-- Where doubles are whole multiples, a whole multiple is one. -/
theorem roundDouble_of_multiple {q : ℚ} {z : ℤ} (hz : q = z * 2 ^ spacing q) (hq : |q| < 2 ^ 1024) :
    roundDouble q = .finite q := by
  have hdivided : q / 2 ^ spacing q = z := by
    have hpos : (2 : ℚ) ^ spacing q ≠ 0 := by positivity
    rw [div_eq_iff hpos]
    exact hz
  unfold roundDouble
  dsimp only
  rw [hdivided, roundHalfEven_intCast, ← hz, if_neg (not_le.mpr hq)]

/-- Below `2 ^ 53` a natural number is a double. -/
theorem roundDouble_natCast {n : ℕ} (hn : n ≤ 2 ^ 53) : roundDouble n = .finite n := by
  have hfits : |(n : ℚ)| < 2 ^ 1024 := by
    rw [Nat.abs_cast]
    have hle : (n : ℚ) ≤ 2 ^ 53 := by exact_mod_cast hn
    exact hle.trans_lt (pow_lt_pow_right₀ (by norm_num) (by norm_num))
  have hlog : Int.log 2 |(n : ℚ)| = Nat.log 2 n := by rw [Nat.abs_cast, Int.log_natCast]
  obtain hlast | hlt := hn.eq_or_lt
  · have hspacing : spacing n = 1 := by
      unfold spacing
      rw [hlog, hlast, Nat.log_pow (by decide)]
      rfl
    refine roundDouble_of_multiple (z := 2 ^ 52) ?_ hfits
    rw [hspacing, hlast]
    norm_num
  · obtain ⟨k, hk⟩ : ∃ k : ℕ, spacing n = -(k : ℤ) := by
      have : Nat.log 2 n < 53 := Nat.log_lt_of_lt_pow' (by decide) hlt
      refine ⟨(-spacing n).toNat, ?_⟩
      unfold spacing
      omega
    refine roundDouble_of_multiple (z := n * 2 ^ k) ?_ hfits
    rw [hk, zpow_neg, zpow_natCast]
    push_cast
    field_simp

end XChainVM.Js
