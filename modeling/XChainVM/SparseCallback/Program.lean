import XChainVM.Machine.Cutoff
import XChainVM.SparseCallback.Objects

/-! # Contracts that call the methods of an array

The code of a contract changes the objects it holds, calls functions and calls the methods. A method reads
the length of its receiver and goes through it, which calls the code of the contract again. Code is
entered to a bounded depth.
-/

namespace XChainVM.SparseCallback

open Harness Js Machine Cut

inductive Method where
  | every
  | filter
  | flatMap
  | forEach
  | map
  | reduce
  | reduceRight
  | some
  deriving DecidableEq

inductive Thrown where
  | value (v : Val)
  | typeError
  deriving DecidableEq

/-- A function of the contract, or one of the two of a probe. -/
inductive Handle where
  | contract (f : ℕ)
  | read (probe : ℕ)
  | write (probe : ℕ)
  deriving DecidableEq

def Handle.isContract : Handle → Bool
  | contract _ => true
  | _ => false

/-- Code that is entered. `convert` makes a number of an object, and `scan` is what a method
does once it has read the length. -/
inductive Request where
  | call (f : ℕ) (this : Val) (args : List Val)
  | convert (o : ℕ)
  | scan (m : Method) (o length : ℕ) (args : List Val)
  deriving DecidableEq

variable {σ τ : Type}

structure Heap (σ : Type) where
  objects : Objects Handle
  rest : σ

def Desc.IsContract : Desc Handle → Prop
  | data .. => True
  | accessor get set _ _ => get.all Handle.isContract = true ∧ set.all Handle.isContract = true

def Heap.Free (h : Heap σ) : Prop := ∀ o, ∀ p ∈ (h.objects o).own, p.2.IsContract

structure Probe where
  receiver : ℕ
  desc : Option (Desc Handle)
  ownsLength : Bool
  n : Val
  installed : Bool

structure World (σ : Type) extends Heap σ where
  /-- The probes there were, oldest first. -/
  probes : List Probe

/-- What a contract does to its objects. It makes up no function of a probe. -/
structure Act (σ : Type) where
  run : Heap σ → Except Thrown Val × Heap σ
  free : ∀ h, h.Free → (run h).2.Free

inductive Code (σ : Type) where
  | done (answer : Except Thrown Val)
  | act (m : Act σ) (next : Except Thrown Val → Code σ)
  | enter (r : Request) (next : Except Thrown Val → Code σ)
  | method (m : Method) (this : Val) (args : List Val) (next : Except Thrown Val → Code σ)

structure Program (σ : Type) where
  code : Request → Code σ
  /-- What `f.call(this, ...args)` calls: `f`, unless the contract put another `call` in place. -/
  callMember : ℕ → Val → List Val → Request
  /-- What `Math.floor(n)` calls, where the contract put another function in place. -/
  floorMember : Number → Option Request
  stringToNumber : String → Number
  /-- The object made of a primitive. -/
  box : Heap σ → Prim → ℕ × Heap σ
  box_free : ∀ h v, h.Free → (box h v).2.Free
  globalThis : ℕ

abbrev Run (τ α : Type) := Cut τ Request Thrown α

def Act.perform (m : Act σ) : Run (World σ) Val := fun s =>
  ([], (m.run s.toHeap).1.mapError some, { s with toHeap := (m.run s.toHeap).2 })

namespace Program

variable (p : Program σ) (enter : Request → Run (World σ) Val)

def number? : Prim → Option Number
  | .undefined => some .nan
  | .null => some (.finite 0)
  | .bool b => some (.finite (if b then 1 else 0))
  | .number n => some n
  | .string s => some (p.stringToNumber s)
  | .bigint _ | .symbol => none

def primToNumber (v : Prim) : Run τ Number :=
  match p.number? v with
  | some x => pure x
  | none => raise .typeError

def visit (r : Request) : Run (World σ) Val := do
  Eff.emit r
  enter r

/-- `+v`. -/
def toNumber : Val → Run (World σ) Number
  | .prim v => p.primToNumber v
  | .object o => do
    match ← visit enter (.convert o) with
    | .prim v => p.primToNumber v
    | .object _ => raise .typeError

def boxed (v : Prim) : Run (World σ) ℕ := fun s =>
  ([], .ok (p.box s.toHeap v).1, { s with toHeap := (p.box s.toHeap v).2 })

def toObject : Val → Run (World σ) ℕ
  | .object o => pure o
  | .prim .undefined | .prim .null => raise .typeError
  | .prim v => p.boxed v

/-- `this` of a function that is not strict. -/
def sloppyThis : Val → Run (World σ) ℕ
  | .object o => pure o
  | .prim .undefined | .prim .null => pure p.globalThis
  | .prim v => p.boxed v

end Program

/-- What a call of a method does, given what code does that is entered. -/
abbrev Implementation (σ : Type) :=
  (Request → Run (World σ) Val) → Method → Val → List Val → Run (World σ) Val

def Code.run (methods : Implementation σ) (enter : Request → Run (World σ) Val) :
    Code σ → Run (World σ) Val
  | done a => answer a
  | act m next => resume m.perform fun a => (next a).run methods enter
  | .enter r next => resume (Program.visit enter r) fun a => (next a).run methods enter
  | method m this args next => resume (methods enter m this args) fun a => (next a).run methods enter

def Program.enter (p : Program σ) (methods : Implementation σ) : ℕ → Request → Run (World σ) Val
  | 0, _ => cutOff
  | depth + 1, r => (p.code r).run methods (enter p methods depth)

/-- No method is called on `null` or `undefined`. -/
def Code.Receives : Code σ → Prop
  | done _ => True
  | act _ next | enter _ next => ∀ a, (next a).Receives
  | method _ this _ next => this.isNullish = false ∧ ∀ a, (next a).Receives

end XChainVM.SparseCallback
