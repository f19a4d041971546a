import Mathlib.Logic.Function.Basic
import XChainVM.Guards.ValueGraph

/-! # The depth guard of the native builtins

`__guardNativeDepth` with its explicit stacks. For `JSON.stringify` the guard also looks for cycles:
it keeps the containers above the one in hand in a flat array, where an entry is overwritten when the
walk comes back to its depth.
-/

namespace XChainVM.Guards

open Harness

inductive Outcome where
  | passed
  | outOfGas
  | outOfStack
  /-- A stack fault that was raised before is raised again. -/
  | poisoned
  | cyclic
  deriving DecidableEq, Repr

/-- A container taken from the stack, its depth, and the entries it is compared with. -/
structure Visit where
  container : ℕ
  depth : ℕ
  above : List (Option ℕ)

structure State where
  /-- The stacks of containers and of depths. -/
  stack : List (ℕ × ℕ)
  path : ℕ → Option ℕ
  gas : ℕ
  poison : Bool
  /-- What was taken from the stack so far. -/
  visited : List Visit
  outcome : Option Outcome

/-- The depth limit of a call, with the level lent to a host call, and whether cycles are looked for. -/
structure Guard where
  limit : ℕ
  forJson : Bool

namespace State

variable (s : State)

def ends (o : Outcome) : State := { s with outcome := some o }

/-- `__gasFunc(n)` -/
def spend (n : ℕ) (k : State → State) : State :=
  if s.gas < n then s.ends .outOfGas else k { s with gas := s.gas - n }

/-- `if (w > 1) __gasFunc(w)` -/
def spendWidth (width : ℕ) (k : State → State) : State := if 1 < width then s.spend width k else k s

end State

/-- `__onPath` compares with the entries above. -/
def onPath (path : ℕ → Option ℕ) (v d : ℕ) : Bool := (List.range (d - 1)).any fun j => path j = some v

variable (g : ValueGraph)

def push (d : ℕ) (stack : List (ℕ × ℕ)) (c : Val) : List (ℕ × ℕ) :=
  match g.container? c with
  | some id => (id, d + 1) :: stack
  | none => stack

namespace Guard

variable (w : Guard)

/-- The scan of a container. The width of an array is known before, that of an object after it. -/
def scan (s : State) (v d : ℕ) : State :=
  match g v with
  | .function => s
  | .array elements =>
    s.spendWidth elements.length fun s => { s with stack := (elements.map Container.read).foldl (push g d) s.stack }
  | .object fields _ =>
    let s := { s with stack := (fields.map Prod.snd).foldl (push g d) s.stack }
    s.spendWidth fields.length id

/-- The cycle check, where the container is recorded if it is not above itself. -/
def record (s : State) (v d : ℕ) : State :=
  if w.forJson then { s with path := Function.update s.path (d - 1) (some v) } else s

def step (s : State) : State :=
  match s.outcome with
  | some _ => s
  | none =>
    match s.stack with
    | [] => s.ends .passed
    | (v, d) :: stack =>
      let above := if w.forJson then (List.range (d - 1)).map s.path else []
      State.spend { s with stack, visited := s.visited ++ [⟨v, d, above⟩] } 1 fun s =>
        if w.forJson && onPath s.path v d then s.ends .cyclic
        else
          let s := w.record s v d
          if w.limit < d then State.ends { s with poison := true } .outOfStack else scan g s v d

/-- `__guardNativeDepth`, up to its loop; it is on where there is a limit. -/
def start (on : Bool) (gas : ℕ) (poison : Bool) (root : Val) : State :=
  let s : State := ⟨[], fun _ => none, gas, poison, [], none⟩
  if !on then s.ends .passed
  else if poison then s.ends .poisoned
  else
    match g.container? root with
    | some id => { s with stack := [(id, 1)] }
    | none => s.ends .passed

end Guard

end XChainVM.Guards
