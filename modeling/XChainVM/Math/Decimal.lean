import Mathlib.Tactic.Ring
import Mathlib.Algebra.Order.Group.Unbundled.Int

/-! # Decimals in fixed notation

A decimal is a sign, its significant digits and the exponent of the first of them. In fixed
notation it is written out without an exponent, so that its length depends on how many digits stand
before the point and how many behind it.
-/

namespace XChainVM.Math

/-- The digits of a decimal have no zeros at either end that could be left out. -/
def Normal (digits : List (Fin 10)) (e : ℤ) : Prop :=
  digits = [0] ∧ e = 0 ∨ digits ≠ [] ∧ digits.head? ≠ some 0 ∧ digits.getLast? ≠ some 0

instance (digits : List (Fin 10)) (e : ℤ) : Decidable (Normal digits e) := by
  unfold Normal
  infer_instance

structure Decimal where
  negative : Bool
  digits : List (Fin 10)
  e : ℤ
  normal : Normal digits e
  deriving DecidableEq

namespace Decimal

def isZero (d : Decimal) : Bool := d.digits = [0]

def significant (d : Decimal) : ℕ := d.digits.length

def sign (d : Decimal) : List Char := if d.negative && !d.isZero then ['-'] else []

def abs (d : Decimal) : Decimal := { d with negative := false }

def digitChars (digits : List (Fin 10)) : List Char := digits.map fun d => Nat.digitChar d.val

def magnitude (digits : List (Fin 10)) (e : ℤ) : List Char :=
  if e < 0 then '0' :: '.' :: (List.replicate (-e - 1).toNat '0' ++ digitChars digits)
  else if digits.length ≤ e + 1 then
    digitChars digits ++ List.replicate (e + 1 - digits.length).toNat '0'
  else digitChars (digits.take (e + 1).toNat) ++ '.' :: digitChars (digits.drop (e + 1).toNat)

def fixed (d : Decimal) : String := String.ofList (d.sign ++ magnitude d.digits d.e)

theorem length_digitChars (digits : List (Fin 10)) : (digitChars digits).length = digits.length :=
  List.length_map _

/-- The characters of a magnitude: all digits before the point, or those behind it as well. -/
theorem length_magnitude (digits : List (Fin 10)) (e : ℤ) :
    ((magnitude digits e).length : ℤ) =
      if e < 0 then digits.length - e + 1 else max (e + 1) (if e + 1 < digits.length then digits.length + 1 else 0) := by
  unfold magnitude
  split
  · rw [List.length_cons, List.length_cons, List.length_append, List.length_replicate,
      length_digitChars]
    omega
  · split
    · rw [List.length_append, List.length_replicate, length_digitChars, if_neg (by omega)]
      omega
    · rw [List.length_append, List.length_cons, length_digitChars, length_digitChars,
        List.length_take, List.length_drop, if_pos (by omega)]
      omega

theorem length_fixed (d : Decimal) :
    d.fixed.length = d.sign.length + (magnitude d.digits d.e).length := by
  rw [fixed, String.length_ofList, List.length_append]

theorem length_sign_le (d : Decimal) : d.sign.length ≤ 1 := by
  unfold sign
  split <;> simp

/-- Room beside the exponent suffices exactly where it takes the significant digits that do not
stand before the point, with the sign and the point. -/
theorem length_fixed_le_iff {room : ℤ} (hroom : 3 ≤ room) (d : Decimal) :
    (d.fixed.length : ℤ) ≤ |d.e| + room ↔
      (d.significant + d.sign.length + 1 : ℤ) ≤ room + max d.e 0 := by
  have hsign := d.length_sign_le
  have hpos : 0 < d.digits.length := by
    obtain ⟨hzero, -⟩ | ⟨hne, -⟩ := d.normal
    · rw [hzero]
      decide
    · exact List.length_pos_iff.mpr hne
  rw [length_fixed, Nat.cast_add, length_magnitude, significant]
  obtain hneg | hnonneg := lt_or_ge d.e 0
  · rw [if_pos hneg, abs_of_neg hneg, max_eq_right hneg.le]
    constructor <;> intro h <;> omega
  · rw [if_neg (by omega), abs_of_nonneg hnonneg, max_eq_left hnonneg]
    split
    · constructor <;> intro h <;> omega
    · constructor <;> intro h <;> omega

end Decimal

inductive BigNumber where
  | finite (d : Decimal)
  | infinity (negative : Bool)
  | nan
  | complex
  deriving DecidableEq

def readDigits (text : List Char) : Option (List (Fin 10)) :=
  text.mapM fun c => if c.isDigit then some (Fin.ofNat 10 (c.toNat - '0'.toNat)) else none

def stripZeros (digits : List (Fin 10)) : List (Fin 10) :=
  ((digits.dropWhile (· = 0)).reverse.dropWhile (· = 0)).reverse

def plainNumber (text : List Char) : Option BigNumber := do
  let negative := text.head? = some '-'
  let parts := (if negative then text.tail else text).splitOn '.'
  let whole ← readDigits (parts.getD 0 [])
  let fraction ← readDigits (parts.getD 1 [])
  let digits := stripZeros (whole ++ fraction)
  let e : ℤ := whole.length - 1 - ((whole ++ fraction).takeWhile (· = 0)).length
  if h : Normal digits e then some (.finite ⟨negative, digits, e, h⟩)
  else some (.finite ⟨negative, [0], 0, .inl ⟨rfl, rfl⟩⟩)

end XChainVM.Math
