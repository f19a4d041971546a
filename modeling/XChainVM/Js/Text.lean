import Mathlib.Data.List.Basic
import XChainVM.Js.Language

/-! # Values as text

What `String` makes of a plain value, how a text splits at a separator, and the digits of a
counter.
-/

namespace XChainVM.Js

mutual

/-- `String(v)`. An object whose own `toString` is data has no text and throws. -/
def Language.text (lang : Language) : Value → Option String
  | .undefined => some "undefined"
  | .null => some "null"
  | .bool b => some (if b then "true" else "false")
  | .number n => some (lang.numberText n)
  | .string s => some s
  | .array elements => (elementTexts lang elements).map (String.intercalate ",")
  | .object fields => if (Value.lookup "toString" fields).isSome then none else some "[object Object]"

def elementTexts (lang : Language) : List Value → Option (List String)
  | [] => some []
  | .undefined :: rest => (elementTexts lang rest).map ("" :: ·)
  | .null :: rest => (elementTexts lang rest).map ("" :: ·)
  | v :: rest => do
    let text ← lang.text v
    let texts ← elementTexts lang rest
    pure (text :: texts)

end

/-- `Boolean(v)`. -/
def Value.truthy : Value → Bool
  | .undefined | .null => false
  | .bool b => b
  | .number .nan => false
  | .number (.finite q) => q ≠ 0
  | .string s => s ≠ ""
  | _ => true

/-- `v || other`. -/
def Value.orElse (v other : Value) : Value := if v.truthy then v else other

/-- `v === undefined || v === null`. -/
def Value.isNullish : Value → Bool
  | .undefined | .null => true
  | _ => false

def isWhiteSpace (c : Char) : Bool :=
  [0x09, 0x0a, 0x0b, 0x0c, 0x0d, 0x20, 0xa0, 0x1680, 0x2028, 0x2029, 0x202f, 0x205f, 0x3000,
    0xfeff].contains c.toNat || (0x2000 ≤ c.toNat && c.toNat ≤ 0x200a)

/-- `text.trim()`. -/
def trim (text : String) : String :=
  String.ofList (((text.toList.dropWhile isWhiteSpace).reverse.dropWhile isWhiteSpace).reverse)

/-- `text.split(separator)[i] || ''`. -/
def splitPart (separator : Char) (i : ℕ) (text : String) : String :=
  String.ofList ((text.toList.splitOn separator).getD i [])

def isDigits (digits : List Char) : Bool := !digits.isEmpty && digits.all Char.isDigit

def joined (separator : Char) (texts : List String) : List Char :=
  [separator].intercalate (texts.map String.toList)

/-- Texts without the separator are read back from their joined text. -/
theorem joined_injective {separator : Char} {xs ys : List String} (hxs : xs ≠ []) (hys : ys ≠ [])
    (hx : ∀ x ∈ xs, separator ∉ x.toList) (hy : ∀ y ∈ ys, separator ∉ y.toList)
    (h : joined separator xs = joined separator ys) : xs = ys := by
  have hsplit : ∀ {zs : List String}, zs ≠ [] → (∀ z ∈ zs, separator ∉ z.toList) →
      (joined separator zs).splitOn separator = zs.map String.toList := by
    intro zs hzs hz
    refine List.splitOn_intercalate separator ?_ (by simpa using hzs)
    intro l hl
    obtain ⟨z, hmem, rfl⟩ := List.mem_map.mp hl
    exact hz z hmem
  have hmap : xs.map String.toList = ys.map String.toList := by
    rw [← hsplit hxs hx, ← hsplit hys hy, h]
  exact List.map_injective_iff.mpr (fun a b hab => String.toList_inj.mp hab) hmap

theorem isDigit_of_mem_toString {n : ℕ} {c : Char} (h : c ∈ (toString n).toList) : c.isDigit := by
  rw [Nat.toString_eq_repr, Nat.toList_repr] at h
  exact Nat.isDigit_of_mem_toDigits (by decide) (by decide) h

theorem toString_injective {m n : ℕ} (h : toString m = toString n) : m = n := by
  have hdigits : Nat.toDigits 10 m = Nat.toDigits 10 n := by
    rw [← Nat.toList_repr, ← Nat.toList_repr, ← Nat.toString_eq_repr, ← Nat.toString_eq_repr, h]
  calc
    m = Nat.ofDigitChars 10 (Nat.toDigits 10 m) 0 := Nat.ofDigitChars_ten_toDigits.symm
    _ = Nat.ofDigitChars 10 (Nat.toDigits 10 n) 0 := by rw [hdigits]
    _ = n := Nat.ofDigitChars_ten_toDigits

theorem toString_ne_nil (n : ℕ) : (toString n).toList ≠ [] := by
  rw [Nat.toString_eq_repr, Nat.toList_repr]
  exact Nat.toDigits_ne_nil

end XChainVM.Js
