import XChainVM.Js.Language
import XChainVM.Machine.Run
import XChainVM.Stringify.Values

/-! # Resolving a value before it is serialized

`__resolveForStringify` as a machine that stops wherever the contract's own code may run: a getter,
a `toJSON` and its read, a replacer, an element of a replacer array. What that code does is the
reply the machine is given. The frames and the forwarded list are those of the harness, which a
nested call of `JSON.stringify` overwrites unless its pools are one for each nesting level.
-/

namespace XChainVM.Stringify

open Harness Js

def RSF_COPY_GAS : ℕ := 32

/-- A container under way: the keys it is done with, the keys still to come after the one in hand, the copy
that is made of it, none while it is inert, and the key it has in the container around it. -/
structure Frame where
  src : ℕ
  isArr : Bool
  past : List String
  todo : List String
  out : Option (List (String × Copy))
  pKey : String

inductive Outcome where
  | undefined
  | handed (c : Copy)
  | outOfGas
  | outOfStack
  /-- A stack fault that was raised before is raised again. -/
  | poisoned
  | cyclic
  /-- Code of the contract threw. -/
  | threw

inductive Phase where
  /-- Reading a replacer array. -/
  | list (id : ℕ) (todo acc : List String)
  | next
  /-- A property is read that is no own data property. -/
  | fetch (key : String)
  | readToJSON (key : String) (v : Val)
  | callToJSON (key : String) (v : Val)
  | replace (key : String) (v : Val)
  /-- The hooks of a slot are done. -/
  | settle (key : String) (v : Val) (hooked : Bool)
  | done (o : Outcome)

structure Pool where
  frames : List Frame
  forwardList : Option (List String)

/-- What the code of the contract does when it is run. -/
structure Reply where
  heap : Heap
  spent : ℕ
  threw : Bool
  poisons : Bool
  pool : Pool
  answer : Val
  /-- The answers where a slot that was a data property is so no longer. -/
  answers : String → Val

structure State where
  heap : Heap
  gas : ℕ
  poison : Bool
  pool : Pool
  repFn : Bool
  propList : Option (List String)
  phase : Phase
  /-- The gas asked for so far. -/
  owed : ℕ
  /-- The paths of the containers gone into so far, innermost key first. -/
  entered : List (List String)

/-- One call of `JSON.stringify`. -/
structure Walk where
  lang : Language
  nativeDepthLimit : ℕ
  /-- The level lent to the argument array of a host call. -/
  allowance : ℕ
  detectCycles : Bool
  root : Val
  replacer : Val

namespace Frame

/-- A slot of the copy: what is left out of an object is `null` in an array. -/
def entry (h : Heap) (isArr : Bool) (key : String) (v : Val) : Option (String × Copy) :=
  if h.skips v then if isArr then some (key, .leaf .null) else none else some (key, .ofVal v)

def quiet (f : Frame) (h : Heap) : Bool := f.past.all fun key => (h.data? f.src key).isSome

def backfill (f : Frame) (h : Heap) (read : String → Val) : Frame :=
  { f with out := some (f.past.filterMap fun key => entry h f.isArr key (read key)) }

def commit (f : Frame) (key : String) (slot : Option (String × Copy)) : Frame :=
  { f with past := f.past ++ [key], out := f.out.map (· ++ slot.toList) }

def result (f : Frame) : Copy :=
  match f.out with
  | none => .ref f.src
  | some slots => .node f.isArr slots

end Frame

namespace State

variable (s : State)

def ends (o : Outcome) : State := { s with phase := .done o }

/-- `__gasFunc(n)`. -/
def spend (n : ℕ) (k : State → State) : State :=
  if s.poison then s.ends .poisoned
  else if s.gas < n then ends { s with owed := s.owed + n } .outOfGas
  else k { s with gas := s.gas - n, owed := s.owed + n }

def spendScan (n : ℕ) (k : State → State) : State := if 1 < n then s.spend n k else k s

def after (r : Reply) : State where
  __ := s
  heap := r.heap
  gas := s.gas - r.spent
  owed := s.owed + r.spent
  poison := s.poison || r.poisons
  pool := r.pool

def asks (r : Reply) (k : State → State) : State :=
  if s.gas < r.spent then ends { s with owed := s.owed + r.spent } .outOfGas
  else if r.threw then (s.after r).ends .threw
  else k (s.after r)

def setTop (f : Frame) : State := { s with pool := { s.pool with frames := f :: s.pool.frames.tail } }

def materialize (r : Reply) (f : Frame) (k : State → Frame → State) : State :=
  if f.out.isSome then k s f
  else
    s.spend RSF_COPY_GAS fun s =>
      if f.quiet s.heap then k s (f.backfill s.heap fun key => (s.heap.data? f.src key).getD .undefined)
      else s.asks r fun s => k s (f.backfill s.heap r.answers)

def materializeIf (dirty : Bool) (r : Reply) (f : Frame) (k : State → Frame → State) : State :=
  if dirty then s.materialize r f k else k s f

end State

namespace Walk

variable (w : Walk)

def depthLimit : ℕ := w.nativeDepthLimit + w.allowance

def listItem (h : Heap) : Val → Option String
  | .prim (.string t) => some t
  | .prim (.number n) => some (w.lang.numberText n)
  | .prim _ => none
  | .object id =>
    if (h.object id).callable then none
    else
      match (h.object id).wrapped with
      | some (.string t) => some t
      | some (.number n) => some (w.lang.numberText n)
      | _ => none

def addItem (h : Heap) (acc : List String) (v : Val) : List String :=
  match w.listItem h v with
  | some item => if item ∈ acc then acc else acc ++ [item]
  | none => acc

def callReplacer (s : State) (key : String) (v : Val) (hooked : Bool) : State :=
  if s.repFn then s.spend 1 fun s => { s with phase := .replace key v }
  else { s with phase := .settle key v hooked }

/-- `__rsfResolve`. -/
def resolve (s : State) (key : String) (v : Val) : State :=
  if s.heap.hasToJSON v then { s with phase := .readToJSON key v } else callReplacer s key v false

def pushFrame (s : State) (r : Reply) (src : ℕ) (isArr dirty : Bool) (key : String) : State :=
  s.spend 1 fun s =>
    if w.detectCycles && s.pool.frames.any fun f => f.src = src then s.ends .cyclic
    else
      let s := { s with entered := (key :: s.pool.frames.map Frame.pKey) :: s.entered }
      if w.depthLimit < s.pool.frames.length + 1 then State.ends { s with poison := true } .outOfStack
      else
        let keys := s.heap.names s.propList src
        s.spendScan keys.length fun s =>
          s.materializeIf dirty r ⟨src, isArr, [], keys, none, key⟩ fun s f =>
            { s with pool := { s.pool with frames := f :: s.pool.frames }, phase := .next }

/-- The innermost frame is done; where it is a copy, so is the frame around it. -/
def popFrame (s : State) (r : Reply) (f : Frame) (rest : List Frame) : State :=
  match rest with
  | [] => s.ends (.handed f.result)
  | pf :: _ =>
    s.materializeIf f.out.isSome r pf fun s pf =>
      let pf := pf.commit f.pKey (some (f.pKey, f.result))
      { s with pool := { s.pool with frames := pf :: s.pool.frames.tail.tail }, phase := .next }

def next (s : State) (r : Reply) : State :=
  match s.pool.frames with
  | [] => s.ends .undefined
  | f :: rest =>
    match f.todo with
    | [] => popFrame s r f rest
    | key :: todo =>
      let f := { f with todo }
      match s.heap.data? f.src key with
      | some v => resolve (s.setTop f) key v
      | none => s.materialize r f fun s f => { s.setTop f with phase := .fetch key }

/-- What the hooks of a slot have left is a leaf or is gone into; outside every frame it is the root. -/
def settle (s : State) (r : Reply) (key : String) (v : Val) (hooked : Bool) : State :=
  let dirty := fun s : State => s.repFn || hooked && s.heap.hasToJSON v
  match s.pool.frames with
  | [] =>
    match s.heap.classify v with
    | .skip => s.ends .undefined
    | .leaf p _ => s.ends (.handed (.leaf p))
    | .container id isArr => w.pushFrame s r id isArr (dirty s) key
  | f :: _ =>
    s.materializeIf hooked r f fun s f =>
      match s.heap.classify v with
      | .skip => { s.setTop (f.commit key (Frame.entry s.heap f.isArr key v)) with phase := .next }
      | .leaf p unwrapped =>
        s.materializeIf unwrapped r f fun s f =>
          { s.setTop (f.commit key (some (key, .leaf p))) with phase := .next }
      | .container id isArr => w.pushFrame (s.setTop f) r id isArr (dirty s) key

def step (s : State) (r : Reply) : State :=
  match s.phase with
  | .list _ [] acc =>
    resolve { s with propList := some acc, pool := { s.pool with forwardList := some acc } } "" w.root
  | .list id (key :: todo) acc =>
    match s.heap.data? id key with
    | some v => { s with phase := .list id todo (w.addItem s.heap acc v) }
    | none => s.asks r fun s => { s with phase := .list id todo (w.addItem s.heap acc r.answer) }
  | .next => next s r
  | .fetch key => s.asks r fun s => resolve s key r.answer
  | .readToJSON key v =>
    s.asks r fun s =>
      if s.heap.isCallable r.answer then s.spend 1 fun s => { s with phase := .callToJSON key v }
      else callReplacer s key v true
  | .callToJSON key _ => s.asks r fun s => callReplacer s key r.answer true
  | .replace key _ => s.asks r fun s => { s with phase := .settle key r.answer true }
  | .settle key v hooked => w.settle s r key v hooked
  | .done _ => s

def start (heap : Heap) (gas : ℕ) (poison : Bool) : State :=
  let s : State := ⟨heap, gas, poison, ⟨[], none⟩, heap.isCallable w.replacer, none, .next, 0, []⟩
  if poison then s.ends .poisoned
  else
    match w.replacer with
    | .prim _ => resolve s "" w.root
    | .object id =>
      if (heap.object id).isArray then
        s.spendScan (heap.object id).length fun s =>
          { s with phase := .list id ((List.range (heap.object id).length).map toString) [] }
      else resolve s "" w.root

end Walk

end XChainVM.Stringify
