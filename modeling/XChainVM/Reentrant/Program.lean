import XChainVM.Js.Language
import XChainVM.Machine.Cutoff
import XChainVM.Stringify.Values

/-! # Contracts that serialize

`JSON.stringify` runs code of the contract, and that code may call `JSON.stringify` again. It may also put
objects on the prototype of arrays, where the harness finds them when an array of its own has no such
element.
-/

namespace XChainVM.Reentrant

open Harness Js Machine Cut Stringify

/-- A container under way, as the harness keeps it. -/
structure Frame where
  src : ℕ
  isArr : Bool
  keys : List String
  n : ℕ
  i : ℕ
  done : ℕ
  out : Option (List (String × Copy))
  inert : Bool
  pKey : String

namespace Frame

def blank : Frame := ⟨0, false, [], 0, 0, 0, none, true, ""⟩

def keyAt (f : Frame) (b : ℕ) : String := if f.isArr then toString b else f.keys.getD b ""

def reuse (src : ℕ) (isArr : Bool) (key : String) (f : Frame) : Frame :=
  { f with src, isArr, i := 0, done := 0, out := none, inert := true, pKey := key }

def sized (keys : List String) (n : ℕ) (f : Frame) : Frame := { f with keys, n }

def append (f : Frame) (slots : List (String × Copy)) : Frame := { f with out := f.out.map (· ++ slots) }

def result (f : Frame) : Copy := if f.inert then .ref f.src else .node f.isArr (f.out.getD [])

end Frame

structure World (σ : Type) where
  heap : Heap
  /-- A stack fault was raised, and is raised again by every charge. -/
  poison : Bool
  /-- The objects on the prototype of arrays at an index, with the members of a frame. -/
  inherited : ℕ → Option Frame
  rest : σ

/-- Code that is entered. A `fetch` reads a property that is no own data property, and `native` is the
native serializer, which may convert its third argument. -/
inductive Request where
  | fetch (id : ℕ) (key : String)
  | readToJSON (v : Val)
  | callToJSON (f v : Val) (key : String)
  | replace (f : Val) (holder : Option ℕ) (key : String) (v : Val)
  | native (copy : Option Copy) (list : Option (List String)) (space : Val)

/-- Code is entered, or an array of the harness answers with an inherited element. -/
inductive Mark where
  | enter (r : Request)
  | inherited (index : ℕ)

inductive Thrown where
  | value (v : Val)
  | stackError
  | typeError
  deriving DecidableEq

/-- The course of a piece of code. An `act` changes the world in any way. -/
inductive Code (σ : Type) where
  | done (answer : Except Thrown Val)
  | act (m : World σ → Except Thrown Val × World σ) (next : Except Thrown Val → Code σ)
  | stringify (value replacer space : Val) (next : Except Thrown Val → Code σ)

structure Program (σ : Type) where
  lang : Language
  nativeDepthLimit : ℕ
  code : Request → Code σ

abbrev Run (τ α : Type) := Cut τ Mark Thrown α

variable {σ τ : Type}

def visit (enter : Request → Run τ Val) (r : Request) : Run τ Val := do
  Eff.emit (.enter r)
  enter r

/-- A piece of code, given what `JSON.stringify` does and how the world is changed. -/
def Code.run (change : (World σ → Except Thrown Val × World σ) → Run τ Val)
    (stringify : Val → Val → Val → Run τ Val) : Code σ → Run τ Val
  | done a => answer a
  | act m next => resume (change m) fun a => (next a).run change stringify
  | .stringify value replacer space next =>
    resume (stringify value replacer space) fun a => (next a).run change stringify

end XChainVM.Reentrant
