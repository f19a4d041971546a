import Mathlib.Algebra.GroupWithZero.Nat
import XChainVM.Runtime.Collector

/-! # The copy of emitted parameters

The copy is built by a loop over a stack of pairs: an object of the parameters, and the empty
container that takes its entries. Containers are mutable, so they live in a heap; one that stands
for an object has no prototype, one that stands for an array inherits from `Array.prototype`.
-/

namespace XChainVM.Runtime

open Js

namespace StripParams

def arrayIndex? (key : String) : Option ℕ :=
  let digits := key.toList
  if digits ≠ [] ∧ digits.all Char.isDigit ∧ (digits.head? = some '0' → digits.length = 1) then
    (some (digits.foldl (fun n c => 10 * n + (c.toNat - '0'.toNat)) 0)).filter (· < 4294967295)
  else none

/-- The order of the own keys of an object: array indices by value, then the others as they were created. -/
def comesBefore (a b : String) : Bool :=
  match arrayIndex? a, arrayIndex? b with
  | some m, some n => m < n
  | some _, none => true
  | none, some _ => false
  | none, none => a ≠ b

/-- `object[key] = value` on an object without a prototype. -/
def setOwn {α : Type} (key : String) (value : α) : List (String × α) → List (String × α)
  | [] => [(key, value)]
  | (name, old) :: rest =>
    if name = key then (name, value) :: rest
    else if comesBefore name key then (name, old) :: setOwn key value rest
    else (key, value) :: (name, old) :: rest

/-- What stands at a place of a container: a leaf, or another container. -/
inductive Slot where
  | leaf (v : Value)
  | ref (address : ℕ)
  deriving Repr

inductive Container where
  | array (elements : List Slot)
  | object (fields : List (String × Slot))
  deriving Repr

abbrev Heap := List Container

structure Work where
  heap : Heap
  stack : List (Value × ℕ)

def makeContainer : Value → Container
  | .array _ => .array []
  | _ => .object []

def copySlot (val : Value) (w : Work) : Slot × Work :=
  if val.isObject then
    (.ref w.heap.length, ⟨w.heap ++ [makeContainer val], (val, w.heap.length) :: w.stack⟩)
  else (.leaf val, w)

namespace Container

/-- `dst[i] = slot`, where `i` is the length of the array so far. -/
def push (slot : Slot) : Container → Container
  | .array elements => .array (elements ++ [slot])
  | .object fields => .object fields

/-- `dst[key] = slot` -/
def assign (key : String) (slot : Slot) : Container → Container
  | .array elements => .array elements
  | .object fields => .object (setOwn key slot fields)

end Container

def Work.write (w : Work) (dst : ℕ) (f : Container → Container) : Work := { w with heap := w.heap.modify dst f }

def copyElement (dst : ℕ) (w : Work) (val : Value) : Work :=
  let (slot, w) := copySlot val w
  w.write dst (.push slot)

def copyField (dst : ℕ) (w : Work) (field : String × Value) : Work :=
  if isPrototypeKey field.1 then w
  else
    let (slot, w) := copySlot field.2 w
    w.write dst (.assign field.1 slot)

/-- One turn of the loop. Only arrays and objects are put on the stack. -/
def turn (w : Work) : Work :=
  match w.stack with
  | [] => w
  | (.array elements, dst) :: stack => elements.foldl (copyElement dst) { w with stack }
  | (.object fields, dst) :: stack => fields.foldl (copyField dst) { w with stack }
  | _ :: stack => { w with stack }

def drain : ℕ → Work → Work
  | 0, w => w
  | turns + 1, w => if w.stack.isEmpty then w else drain turns (turn w)

def start (root : Value) : Work := ⟨[makeContainer root], [(root, 0)]⟩

def deepStripParams (turns : ℕ) (root : Value) : Option (Slot × Heap) :=
  if root.isObject then
    let w := drain turns (start root)
    if w.stack.isEmpty then some (.ref 0, w.heap) else none
  else some (.leaf root, [])

inductive Denotes (heap : Heap) : Slot → Value → Prop where
  | leaf (v : Value) : Denotes heap (.leaf v) v
  | array {a : ℕ} {slots : List Slot} {elements : List Value} :
      heap[a]? = some (.array slots) → List.Forall₂ (Denotes heap) slots elements →
        Denotes heap (.ref a) (.array elements)
  | object {a : ℕ} {slots : List (String × Slot)} {fields : List (String × Value)} :
      heap[a]? = some (.object slots) → slots.map Prod.fst = fields.map Prod.fst →
        List.Forall₂ (Denotes heap) (slots.map Prod.snd) (fields.map Prod.snd) →
          Denotes heap (.ref a) (.object fields)

/-- What reading a property of a container gives. -/
inductive Reading where
  | undefined
  | own (slot : Slot)
  | length (n : ℕ)
  | arrayPrototype (key : String)

def Container.get (key : String) : Container → Reading
  | .object fields =>
    match fields.lookup key with
    | some slot => .own slot
    | none => .undefined
  | .array elements =>
    if key = "length" then .length elements.length
    else match (arrayIndex? key).bind fun i => elements[i]? with
      | some slot => .own slot
      | none => .arrayPrototype key

mutual

/-- The names of every object in a value satisfy `P`. -/
def EveryObject (P : List String → Prop) : Value → Prop
  | .array elements => EveryElement P elements
  | .object fields => P (fields.map Prod.fst) ∧ EveryField P fields
  | _ => True

def EveryElement (P : List String → Prop) : List Value → Prop
  | [] => True
  | v :: rest => EveryObject P v ∧ EveryElement P rest

def EveryField (P : List String → Prop) : List (String × Value) → Prop
  | [] => True
  | (_, v) :: rest => EveryObject P v ∧ EveryField P rest

end

/-- Own keys are distinct and stand in the order of an object's own keys. -/
def Ordered : Value → Prop := EveryObject (List.Pairwise fun a b => comesBefore a b = true)

def Clean : Value → Prop := EveryObject fun names => ∀ name ∈ names, isPrototypeKey name = false

mutual

def containers : Value → ℕ
  | .array elements => 1 + containersOf elements
  | .object fields => 1 + containersOfFields fields
  | _ => 0

def containersOf : List Value → ℕ
  | [] => 0
  | v :: rest => containers v + containersOf rest

def containersOfFields : List (String × Value) → ℕ
  | [] => 0
  | (_, v) :: rest => containers v + containersOfFields rest

end

end StripParams

end XChainVM.Runtime
