import XChainVM.Json.ParseGuard
import XChainVM.Machine.Run
import XChainVM.Stringify.Resolve

/-! # JSON.stringify in the isolate

The wrapped `JSON.stringify`: a guard that may raise a stack fault, the native serializer, and a charge for
the text. What the contract does when its code is run is the reply a walk is given. A stack fault is
never taken back.
-/

namespace XChainVM.Manifest

open Harness Js Machine Stringify
open Json (Text)

structure Isolate where
  heap : Heap
  gas : ℕ
  poison : Bool

inductive Answer (α : Type) where
  | ok (a : α)
  | threw
  | outOfGas
  deriving DecidableEq

def Answer.andThen {α β : Type} : Answer α × Isolate → (α → Isolate → Answer β × Isolate) → Answer β × Isolate
  | (.ok a, i), k => k a i
  | (.threw, i), _ => (.threw, i)
  | (.outOfGas, i), _ => (.outOfGas, i)

/-- Code that may be the contract's. Behind a stack fault nothing is charged any more. -/
structure Code (α : Type) where
  run : Isolate → Answer α × Isolate
  sticky : ∀ i, i.poison = true → (run i).1 ≠ .outOfGas ∧ (run i).2.poison = true

/-- Which of its guards `JSON.stringify` has, by the activations that are in force. -/
inductive Guarding where
  | off
  | depth
  | hooks
  deriving DecidableEq

structure Engine where
  lang : Language
  guarding : Guarding
  nativeDepthLimit : ℕ
  detectCycles : Bool
  /-- The native serializer. -/
  native : Copy → Code (Option Text)

namespace Isolate

variable (i : Isolate)

def after (r : Reply) : Isolate := ⟨r.heap, i.gas - r.spent, i.poison || r.poisons⟩

/-- `__gas(n)`. -/
def spend (n : ℕ) : Answer Unit × Isolate :=
  if i.poison then (.threw, i)
  else if i.gas < n then (.outOfGas, i)
  else (.ok (), { i with gas := i.gas - n })

/-- `__allocGas(n)`. -/
def allocGas (n : ℕ) : Answer Unit × Isolate := if 1 < n then i.spend n else (.ok (), i)

end Isolate

inductive Visit where
  | pop
  /-- The slots of a container that are still to be read, and their number. -/
  | read (id depth width : ℕ) (todo : List String)
  | done (a : Answer Unit)

/-- `__guardNativeDepth` on its way, with the containers on its stack and their depths. -/
structure Depths where
  isolate : Isolate
  stack : List (ℕ × ℕ)
  visit : Visit

namespace Depths

variable (s : Depths)

def spend (n : ℕ) (k : Depths → Depths) : Depths :=
  match s.isolate.spend n with
  | (.ok (), isolate) => k { s with isolate }
  | (a, isolate) => { s with isolate, visit := .done a }

def push (v : Val) (depth : ℕ) : Depths :=
  match v with
  | .prim _ => s
  | .object id => if (s.isolate.heap.object id).callable then s else { s with stack := (id, depth + 1) :: s.stack }

def step (limit : ℕ) (r : Reply) : Depths :=
  match s.visit with
  | .pop =>
    match s.stack with
    | [] => { s with visit := .done (.ok ()) }
    | (id, depth) :: rest =>
      spend { s with stack := rest } 1 fun s =>
        let o := s.isolate.heap.object id
        if limit < depth then { s with isolate.poison := true, visit := .done .threw }
        else if o.isArray then
          let slots := (List.range o.length).map toString
          let s := { s with visit := .read id depth 0 slots }
          if 1 < o.length then s.spend o.length fun s => s else s
        else { s with visit := .read id depth o.keys.length o.keys }
  | .read _ _ width [] =>
    let s := { s with visit := .pop }
    if 1 < width then s.spend width fun s => s else s
  | .read id depth width (key :: todo) =>
    let s := { s with visit := .read id depth width todo }
    match s.isolate.heap.data? id key with
    | some v => s.push v depth
    | none =>
      if s.isolate.gas < r.spent then { s with visit := .done .outOfGas }
      else if r.threw then { s with isolate := s.isolate.after r, visit := .done .threw }
      else push { s with isolate := s.isolate.after r } r.answer depth
  | .done _ => s

def start (isolate : Isolate) : Val → Depths
  | .prim _ => ⟨isolate, [], .done (if isolate.poison then .threw else .ok ())⟩
  | .object id =>
    if isolate.poison then ⟨isolate, [], .done .threw⟩
    else if (isolate.heap.object id).callable then ⟨isolate, [], .done (.ok ())⟩
    else ⟨isolate, [(id, 1)], .pop⟩

end Depths

namespace Engine

variable (e : Engine)

def nativeText (c : Copy) (i : Isolate) : Answer (Option Text) × Isolate :=
  Answer.andThen ((e.native c).run i) fun
    | none, i => (.ok none, i)
    | some text, i => Answer.andThen (i.allocGas text.length) fun _ i => (.ok (some text), i)

def walk (root : Val) : Walk := ⟨e.lang, e.nativeDepthLimit, 0, e.detectCycles, root, .undefined⟩

/-- `JSON.stringify(root)`, none where the replies do not bring its walk to an end. -/
def stringify (root : Val) (replies : List Reply) (i : Isolate) : Option (Answer (Option Text) × Isolate) :=
  match e.guarding with
  | .off => some (e.nativeText (.ofVal root) i)
  | .depth =>
    let s := run (fun s r => s.step e.nativeDepthLimit r) (Depths.start i root) replies
    match s.visit with
    | .done (.ok ()) => some (e.nativeText (.ofVal root) s.isolate)
    | .done .threw => some (.threw, s.isolate)
    | .done .outOfGas => some (.outOfGas, s.isolate)
    | _ => none
  | .hooks =>
    let s := run (e.walk root).step ((e.walk root).start i.heap i.gas i.poison) replies
    let i : Isolate := ⟨s.heap, s.gas, s.poison⟩
    match s.phase with
    | .done .undefined => some (.ok none, i)
    | .done (.handed c) => some (e.nativeText c i)
    | .done .outOfGas => some (.outOfGas, i)
    | .done _ => some (.threw, i)
    | _ => none

end Engine

end XChainVM.Manifest
