import Mathlib.Data.List.Infix
import XChainVM.Js.Value

/-! # Conversions of plain values

The conversions between numbers, texts and serialized values that the language
provides. No result depends on how a number is spelled, so they stay abstract;
a conversion that throws or yields `undefined` is `none`.
-/

namespace XChainVM.Js

structure Language where
  /-- `String(n)`. -/
  numberText : Number → String
  /-- `Number(v)`. -/
  toNumber : Value → Option Number
  /-- `JSON.stringify(v)`. -/
  jsonText : Value → Option String

def codeUnits (c : Char) : ℕ := if c.toNat < 0x10000 then 1 else 2

/-- The first `budget` code units of a text. -/
def takeUnits : ℕ → List Char → List Char
  | _, [] => []
  | budget, c :: rest =>
    if codeUnits c ≤ budget then c :: takeUnits (budget - codeUnits c) rest else []

/-- `text.length > limit ? text.substring(0, limit) : text`. -/
def truncateText (limit : ℕ) (text : String) : String := String.ofList (takeUnits limit text.toList)

/-- `text.includes(part)`. -/
def includes (text part : String) : Bool := part.toList <:+: text.toList

/-- `text.startsWith(part)`. -/
def startsWith (text part : String) : Bool := part.toList.isPrefixOf text.toList

end XChainVM.Js
