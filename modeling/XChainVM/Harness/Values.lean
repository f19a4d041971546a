import Mathlib.Tactic.Linarith
import XChainVM.Js.Language
import XChainVM.Machine.Ledger

/-! # Values a contract hands to a builtin

A contract sees a builtin through the reads it makes: a property, a conversion,
a step of an iterator. Each may run code of the contract, which charges gas,
changes what later reads answer, or throws. The world of a contract says how it
answers; nothing is assumed of two reads of the same thing.
-/

namespace XChainVM.Harness

open Js Machine

inductive Prim where
  | undefined
  | null
  | bool (b : Bool)
  | number (n : Number)
  | bigint (z : ℤ)
  | string (s : String)
  | symbol
  deriving DecidableEq

inductive Val where
  | prim (p : Prim)
  | object (id : ℕ)
  deriving DecidableEq

namespace Val

abbrev undefined : Val := .prim .undefined

abbrev number (n : Number) : Val := .prim (.number n)

/-- `v == null`. -/
def isNullish : Val → Bool
  | .prim .undefined | .prim .null => true
  | _ => false

/-- `typeof v === 'number'`. -/
def isNumber : Val → Bool
  | .prim (.number _) => true
  | _ => false

def isObject : Val → Bool
  | .object _ => true
  | _ => false

def truthy : Val → Bool
  | .prim .undefined | .prim .null => false
  | .prim (.bool b) => b
  | .prim (.number .nan) => false
  | .prim (.number (.finite q)) => q ≠ 0
  | .prim (.number (.infinity _)) => true
  | .prim (.bigint z) => z ≠ 0
  | .prim (.string s) => s ≠ ""
  | .prim .symbol | .object _ => true

end Val

/-- `n > bound`. -/
def exceeds (n : Number) (bound : ℚ) : Bool :=
  match n with
  | .finite q => bound < q
  | .infinity negative => !negative
  | .nan => false

def MAX_SAFE_INTEGER : ℕ := 9007199254740991

/-- The units the host bills for `__gas(n)`. -/
def billed : Number → ℕ
  | .finite q => if 1 ≤ q then q.floor.toNat else 1
  | _ => MAX_SAFE_INTEGER

/-- `n * k` for a count `k`. -/
def times : Number → ℕ → Number
  | .finite q, k => .finite (q * k)
  | .infinity negative, k => if k = 0 then .nan else .infinity negative
  | .nan, _ => .nan

inductive Integer where
  | finite (z : ℤ)
  | infinity (negative : Bool)
  deriving DecidableEq

/-- `Math.trunc`, with `NaN` read as zero. -/
def toIntegerOrInfinity : Number → Integer
  | .nan => .finite 0
  | .infinity negative => .infinity negative
  | .finite q => .finite (if 0 ≤ q then q.floor else -(-q).floor)

def toLength (n : Number) : ℕ :=
  match toIntegerOrInfinity n with
  | .finite z => min z.toNat MAX_SAFE_INTEGER
  | .infinity negative => if negative then 0 else MAX_SAFE_INTEGER

/-- `ToIndex`, none where it throws. -/
def toIndex (n : Number) : Option ℕ :=
  match toIntegerOrInfinity n with
  | .finite z => if 0 ≤ z ∧ z ≤ MAX_SAFE_INTEGER then some z.toNat else none
  | .infinity _ => none

/-- A relative position within `len`. -/
def relativeIndex (len : ℕ) : Integer → ℕ
  | .finite z => if z < 0 then (len + z).toNat else min z.toNat len
  | .infinity negative => if negative then 0 else len

def textLength (s : String) : ℕ := (s.toList.map codeUnits).sum

inductive Key where
  | length
  | size
  | iterator
  | maxByteLength
  deriving DecidableEq

inductive Hint where
  | number
  | string
  deriving DecidableEq

/-- The answer to one read: what the contract's own code charged meanwhile, and the
answer with the world it left, none when it threw. -/
structure Reply (σ α : Type) where
  units : ℕ
  outcome : Option (α × σ)

structure World (σ : Type) where
  stringToNumber : String → Number
  get : σ → Val → Key → Reply σ Val
  toPrimitive : σ → ℕ → Hint → Reply σ Prim
  isCallable : σ → Val → Bool
  /-- Calling an iterator method on its source. -/
  openIterator : σ → Val → Val → Reply σ Val
  /-- One step of an iterator, none when it is done. -/
  step : σ → Val → Reply σ (Option Val)
  /-- Calling a mapping function on an element and its index. -/
  map : σ → Val → Val → ℕ → Reply σ Val
  /-- The key and value an entry of a map is read as. -/
  entry : σ → Val → Reply σ Unit
  typedArrayLength : σ → ℕ → Option ℕ
  isArrayBuffer : σ → ℕ → Bool
  /-- `...arguments`, which steps the array iterator. -/
  spread : σ → List Val → Reply σ (List Val)
  /-- Stack units of a forwarded call; it throws when they do not fit. -/
  reserve : σ → ℕ → Reply σ Unit
  /-- Sizes within the limits of the engine; a builtin throws on any other before it allocates. -/
  fits : ℕ → Bool
  fits_le : ∀ n, fits n → n ≤ MAX_SAFE_INTEGER

def ask {σ α : Type} (read : σ → Reply σ α) : Act σ α := fun s =>
  ([.charge (read s).units], (read s).outcome)

theorem quiet_ask {σ α : Type} (read : σ → Reply σ α) : Act.Quiet (ask read) :=
  fun s => noAlloc_charge (read s).units

namespace World

variable {σ : Type} (w : World σ)

/-- `ToNumber` of a primitive, which throws on a BigInt and on a symbol. -/
def primToNumber : Prim → Act σ Number
  | .undefined => pure .nan
  | .null => pure (.finite 0)
  | .bool b => pure (.finite (if b then 1 else 0))
  | .number n => pure n
  | .string s => pure (w.stringToNumber s)
  | .bigint _ | .symbol => Act.throw

/-- `+v`. -/
def toNumber : Val → Act σ Number
  | .prim p => w.primToNumber p
  | .object id => do
    let p ← ask fun s => w.toPrimitive s id .number
    w.primToNumber p

/-- The length of the text a value converts to. Other primitives than strings have
short texts, whose length the language gives. -/
def primTextLength (lang : Language) : Prim → Act σ ℕ
  | .undefined => pure 9
  | .null => pure 4
  | .bool b => pure (if b then 4 else 5)
  | .number n => pure (textLength (lang.numberText n))
  | .string s => pure (textLength s)
  | .bigint z => pure (textLength (toString z))
  | .symbol => Act.throw

def toText (lang : Language) : Val → Act σ ℕ
  | .prim p => primTextLength lang p
  | .object id => do
    let p ← ask fun s => w.toPrimitive s id .string
    primTextLength lang p

def read (v : Val) (key : Key) : Act σ Val := ask fun s => w.get s v key

def fitting (n : ℕ) : Act σ ℕ := if w.fits n then pure n else Act.throw

theorem quiet_primToNumber (p : Prim) : Act.Quiet (w.primToNumber p) := by
  cases p with
  | bigint z => exact Act.quiet_throw
  | symbol => exact Act.quiet_throw
  | _ => exact Act.quiet_pure _

theorem quiet_toNumber (v : Val) : Act.Quiet (w.toNumber v) := by
  cases v with
  | prim p => exact w.quiet_primToNumber p
  | object id => exact (quiet_ask _).bind w.quiet_primToNumber

theorem quiet_primTextLength (lang : Language) (p : Prim) :
    Act.Quiet (primTextLength lang p : Act σ ℕ) := by
  cases p with
  | symbol => exact Act.quiet_throw
  | _ => exact Act.quiet_pure _

theorem quiet_toText (lang : Language) (v : Val) : Act.Quiet (w.toText lang v) := by
  cases v with
  | prim p => exact quiet_primTextLength lang p
  | object id => exact (quiet_ask _).bind (quiet_primTextLength lang)

theorem quiet_read (v : Val) (key : Key) : Act.Quiet (w.read v key) := quiet_ask _

theorem quiet_fitting (n : ℕ) : Act.Quiet (w.fitting n) := by
  unfold fitting
  split
  · exact Act.quiet_pure _
  · exact Act.quiet_throw

end World

end XChainVM.Harness
