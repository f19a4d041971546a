import XChainVM.Json.ParseGuard
import XChainVM.Machine.Run

/-! # The walk of a reviver

`InternalizeJSONProperty` over a heap that the reviver may change between any two visits. A
container of the walk is an array or an object whose properties it visits one after another; the
depth of the walk is how many containers it is inside.
-/

namespace XChainVM.Json

open Harness

/-- A property without content is an accessor. -/
structure Slot where
  enumerable : Bool
  content : Option Val

structure Object where
  isArray : Bool
  length : ℕ
  slots : List (String × Slot)

abbrev Heap := ℕ → Object

namespace Heap

def own? (h : Heap) (id : ℕ) (name : String) : Option Val := ((h id).slots.lookup name).bind Slot.content

def names (h : Heap) (id : ℕ) : List String :=
  if (h id).isArray then (List.range (h id).length).map toString
  else ((h id).slots.filter fun s => s.2.enumerable).map Prod.fst

def setSlots (h : Heap) (id : ℕ) (slots : List (String × Slot)) : Heap :=
  fun other => if other = id then { h id with slots } else h other

/-- An answer of `undefined` deletes the property, every other replaces it. -/
def writeBack (h : Heap) (id : ℕ) (name : String) (answer : Val) : Heap :=
  let others := (h id).slots.filter fun s => s.1 ≠ name
  if answer = .undefined then h.setSlots id others
  else h.setSlots id ((name, ⟨true, some answer⟩) :: others)

def Nested (h : Heap) : ℕ → Val → Prop
  | _, .prim _ => True
  | 0, .object _ => False
  | n + 1, .object id => ∀ name ∈ h.names id, ∀ v, h.own? id name = some v → Nested h n v

theorem nested_prim (h : Heap) (n : ℕ) (p : Prim) : h.Nested n (.prim p) := by
  cases n <;> trivial

end Heap

/-- A container under way, the name it has in the one around it, and the names still to visit. -/
structure Frame where
  name : String
  holder : ℕ
  names : List String

inductive Phase where
  | visit
  /-- The reviver is due for a property of the innermost container. -/
  | revive (name : String) (v : Val)
  | done

structure Walk where
  heap : Heap
  frames : List Frame
  phase : Phase

/-- What the code of the contract does when the walk runs it. A getter, or a property found on a
prototype, answers a read; the reviver answers for a property, which may refuse the answer. -/
inductive Event where
  | visit (heap : Heap) (answer : Val)
  | revived (heap : Heap) (answer : Val) (refused : Bool)
  | threw

namespace Walk

def start (heap : Heap) (root : ℕ) : Walk := ⟨heap, [⟨"", root, [""]⟩], .visit⟩

def depth (w : Walk) : ℕ := w.frames.length - 1

def enter (w : Walk) (name : String) (v : Val) : Walk :=
  match v with
  | .object id => { w with frames := ⟨name, id, w.heap.names id⟩ :: w.frames }
  | v => { w with phase := .revive name v }

def visit (w : Walk) (heap : Heap) (answer : Val) : Walk :=
  match w.frames with
  | ⟨name, holder, next :: names⟩ :: rest =>
    let frames := ⟨name, holder, names⟩ :: rest
    match w.heap.own? holder next with
    | some v => { w with frames }.enter next v
    | none => ({ w with heap, frames } : Walk).enter next answer
  | [_] | [] => { w with frames := [], phase := .done }
  | ⟨name, holder, []⟩ :: rest => { w with frames := rest, phase := .revive name (.object holder) }

/-- The heap when the reviver has answered for a property of the innermost container. -/
def answered (w : Walk) (name : String) (heap : Heap) (answer : Val) (refused : Bool) : Heap :=
  match w.frames with
  | f :: _ => if refused then heap else heap.writeBack f.holder name answer
  | [] => heap

end Walk

def step (w : Walk) (e : Event) : Walk :=
  match w.phase, e with
  | .visit, .visit heap answer => w.visit heap answer
  | .revive name _, .revived heap answer refused =>
    { w with heap := w.answered name heap answer refused, phase := .visit }
  | .done, _ => w
  | _, .threw => { w with frames := [], phase := .done }
  | _, _ => w

end XChainVM.Json
