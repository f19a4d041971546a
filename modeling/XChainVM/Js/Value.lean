import Mathlib.Data.Rat.Defs
import Mathlib.Algebra.Order.Ring.Unbundled.Rat

/-! # The plain values that cross the pipe

Frames travel between the host and its worker as serialized plain data. A
property read on a value that has no such property is `undefined`, as it is
for every primitive.
-/

namespace XChainVM.Js

/-- A number is rational unless it is one of the three values that are not finite. -/
inductive Number where
  | nan
  | infinity (negative : Bool)
  | finite (q : ℚ)
  deriving DecidableEq, Repr

inductive Value where
  | undefined
  | null
  | bool (b : Bool)
  | number (n : Number)
  | string (s : String)
  | array (elements : List Value)
  | object (fields : List (String × Value))
  deriving Repr

namespace Value

def lookup (key : String) : List (String × Value) → Option Value
  | [] => none
  | (name, v) :: rest => if name = key then some v else lookup key rest

/-- The own property `key`, absent on every value that is not an object. -/
def ownProperty? : Value → String → Option Value
  | object fields, key => lookup key fields
  | _, _ => none

def hasOwnProperty (v : Value) (key : String) : Bool := (v.ownProperty? key).isSome

def get (v : Value) (key : String) : Value := (v.ownProperty? key).getD undefined

def assignField (key : String) (v : Value) : List (String × Value) → List (String × Value)
  | [] => [(key, v)]
  | (name, w) :: rest => if name = key then (name, v) :: rest else (name, w) :: assignField key v rest

/-- `Object.assign({}, opts, { key: v })`. -/
def assign : Value → String → Value → Value
  | object fields, key, v => object (assignField key v fields)
  | _, key, v => object [(key, v)]

/-- `typeof v === 'object'` with `null` left out. -/
def isObject : Value → Bool
  | array _ | object _ => true
  | _ => false

def isArray : Value → Bool
  | array _ => true
  | _ => false

def isBoolean : Value → Bool
  | bool _ => true
  | _ => false

def isString : Value → Bool
  | string _ => true
  | _ => false

def isNull : Value → Bool
  | null => true
  | _ => false

/-- `v === s` for a string `s`. -/
def equalsString (v : Value) (s : String) : Bool :=
  match v with
  | string t => t = s
  | _ => false

def equalsNat (v : Value) (n : Nat) : Bool :=
  match v with
  | number (.finite q) => q = (n : ℚ)
  | _ => false

@[simp] theorem equalsString_iff {v : Value} {s : String} : v.equalsString s = true ↔ v = string s := by
  cases v <;> simp [equalsString]

theorem equalsNat_inj {v : Value} {m n : Nat} (hm : v.equalsNat m = true)
    (hn : v.equalsNat n = true) : m = n := by
  cases v with
  | number x =>
    cases x with
    | finite q =>
      simp only [equalsNat, decide_eq_true_eq] at hm hn
      exact_mod_cast hm.symm.trans hn
    | _ => simp [equalsNat] at hm
  | _ => simp [equalsNat] at hm

theorem lookup_assignField (key : String) (v : Value) (fields : List (String × Value)) :
    lookup key (assignField key v fields) = some v := by
  induction fields with
  | nil => simp [assignField, lookup]
  | cons field rest ih =>
    obtain ⟨name, w⟩ := field
    by_cases h : name = key
    · simp [assignField, lookup, h]
    · simp [assignField, lookup, h, ih]

@[simp] theorem get_assign (v : Value) (key : String) (w : Value) : (v.assign key w).get key = w := by
  cases v <;> simp [assign, get, ownProperty?, lookup_assignField, lookup]

end Value

end XChainVM.Js
