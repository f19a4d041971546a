import XChainVM.Js.Value

/-! # The emission collector

The queue of actions one execution emits, with its cap, and the log lines it
keeps. Queued parameters are copies without the keys that reach a prototype.
-/

namespace XChainVM.Runtime

open Js

/-- `__proto__` and `constructor` are never copied. -/
def isPrototypeKey (key : String) : Bool := key = "__proto__" || key = "constructor"

mutual

def deepStripParams : Value → Value
  | .array elements => .array (deepStripElements elements)
  | .object fields => .object (deepStripFields fields)
  | root => root

def deepStripElements : List Value → List Value
  | [] => []
  | v :: rest => deepStripParams v :: deepStripElements rest

def deepStripFields : List (String × Value) → List (String × Value)
  | [] => []
  | (key, v) :: rest =>
    if isPrototypeKey key then deepStripFields rest
    else (key, deepStripParams v) :: deepStripFields rest

end

/-- The copy made below the gate, an object that strips the top level only. The keys of an array
are its indices. -/
def shallowStripParams : Value → Value
  | .array elements => .object (elements.zipIdx.map fun element => (toString element.2, element.1))
  | .object fields => .object (fields.filter fun field => !isPrototypeKey field.1)
  | params => params

structure EmittedAction where
  action : String
  params : Value
  deriving Repr

structure EmissionCollector where
  actions : List EmittedAction
  logs : List String
  max : ℤ
  deepStrip : Bool
  deriving Repr

/-- The first `budget` bytes of a line. A character cut in half decodes as one
replacement character. -/
def subarrayText : ℕ → List Char → List Char
  | _, [] => []
  | budget, c :: rest =>
    if c.utf8Size ≤ budget then c :: subarrayText (budget - c.utf8Size) rest
    else if budget = 0 then [] else ['\uFFFD']

namespace EmissionCollector

def new (maxEmissions : ℤ) (deepStrip : Bool) : EmissionCollector := ⟨[], [], maxEmissions, deepStrip⟩

def ensureRoom (c : EmissionCollector) : Bool := (c.actions.length : ℤ) < c.max

def strip (c : EmissionCollector) (params : Value) : Value :=
  if c.deepStrip then deepStripParams params else shallowStripParams params

/-- Queue an action, or none when the cap is reached and `add` throws. -/
def add (c : EmissionCollector) (action : String) (params : Value) : Option EmissionCollector :=
  if c.ensureRoom then some { c with actions := c.actions ++ [⟨action, c.strip params⟩] } else none

def addLog (c : EmissionCollector) (message : String) : EmissionCollector :=
  if c.logs.length < 100 then
    let line := if 1024 < message.utf8ByteSize then
      String.ofList (subarrayText 1024 message.toList) ++ "...(truncated)" else message
    { c with logs := c.logs ++ [line] }
  else c

end EmissionCollector

end XChainVM.Runtime
